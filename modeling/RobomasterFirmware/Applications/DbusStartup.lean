import RobomasterFirmware.Applications.DbusReception

/-!
# Starting the Remote Control

`dbus_open` opens the device with its DMA channel first and registers `dbus_input` afterwards
(`rt_device_set_rx_indicate`). The interrupt that finds no callback still moves `put_index`, so
`get_index` stays at the start of the buffer and falls behind the channel.

However much arrives before the callback is there, the first call hands over the end of everything
that has arrived since the device was opened, up to whole turns of the buffer, and with it the
indices are in step: every later burst is received exactly. No call is given as many bytes as the
buffer has, so `dbus_rx_buffer` is not overrun by the first call either.

## Main Results
- `Missed.receive`: the first burst that is reported to the callback
- `dbusStartup_exact`: the calls of every start
-/

namespace RobomasterFirmware.Drivers.SerialDevice

open RobomasterFirmware.Lib

/-- Two bursts are stored like one. -/
theorem dmaReceive_append (s : SerialDevice) (xs ys : List UInt8) :
    s.dmaReceive (xs ++ ys) = (s.dmaReceive xs).dmaReceive ys := by
  simp only [dmaReceive, ringWrite_append, ringWrite_mod, List.length_append, Nat.mod_add_mod,
    Nat.add_assoc]

/-- Nor does it matter that the interrupt comes between them. -/
theorem moved_dmaReceive_moved (s : SerialDevice) (xs ys : List UInt8) :
    ((s.dmaReceive xs).moved.dmaReceive ys).moved = (s.dmaReceive (xs ++ ys)).moved := by
  rw [dmaReceive_append]
  rfl

end RobomasterFirmware.Drivers.SerialDevice

namespace RobomasterFirmware.Applications

open RobomasterFirmware.Drivers
open RobomasterFirmware.Drivers.SerialDevice
open RobomasterFirmware.Lib

/-! ## Model -/

/-- The receiver, and whether `rx_indicate` is `dbus_input` or `RT_NULL`. -/
structure DbusStartup where
  receiver : DbusReceiver
  rxIndicate : Bool

/-- A burst arrives, or `dbus_open` registers the callback. -/
inductive StartupEvent where
  | burst (bytes : List UInt8)
  | setRxIndicate

/-- Bursts before and after the callback is registered; it shows the calls of `dbus_input`. -/
def startupMachine : Machine DbusStartup StartupEvent Delivery where
  step s
    | .burst bytes =>
      if s.rxIndicate then
        let (receiver, calls) := s.receiver.receive bytes
        ({ s with receiver := receiver }, calls)
      -- the interrupt runs as ever, but there is nobody to call
      else ({ s with receiver.serial := (s.receiver.serial.dmaReceive bytes).uartIsr.1 }, [])
    | .setRxIndicate => ({ s with rxIndicate := true }, [])

/-- The calls that the bursts `after` the registration should lead to, when the bytes `missed` came
before it. -/
def startupDeliveries (B : ℕ) (missed : List UInt8) : List (List UInt8) → List Delivery
  | [] => []
  | bytes :: after =>
    if B ∣ bytes.length then startupDeliveries B (missed ++ bytes) after
    else
      { size := UInt32.ofNat ((missed ++ bytes).length % B)
        bytes := lastTurn B (missed ++ bytes) } ::
        after.flatMap (deliveries B)

/-! ## A device that has not been read -/

/-- The device has received these bytes since it was opened, and nobody has read any. -/
def Missed (bufsz : UInt16) (buffer : ℕ → UInt8) (missed : List UInt8) (s : SerialDevice) : Prop :=
  s = ((SerialDevice.opened bufsz buffer).dmaReceive missed).moved

variable {bufsz : UInt16} {buffer : ℕ → UInt8} {missed : List UInt8} {s : SerialDevice}

theorem missed_opened (bufsz : UInt16) (buffer : ℕ → UInt8) :
    Missed bufsz buffer [] (SerialDevice.opened bufsz buffer) := by
  have hpos : (0 + ([] : List UInt8).length) % bufsz.toNat = 0 := Nat.zero_mod _
  simp only [Missed, SerialDevice.opened, dmaReceive, moved, hpos]
  rfl

/-- The interrupt after another burst: no report for whole turns. -/
theorem Missed.uartIsr_dmaReceive (h : Missed bufsz buffer missed s) (hB : 0 < bufsz.toNat)
    (bytes : List UInt8) :
    (s.dmaReceive bytes).uartIsr =
      (((SerialDevice.opened bufsz buffer).dmaReceive (missed ++ bytes)).moved,
        if bufsz.toNat ∣ bytes.length then none
        else some ((SerialDevice.opened bufsz buffer).dmaReceive
          (missed ++ bytes)).moved.calcRecvedLen.toInt32) := by
  have hs : s.dmaPos = missed.length % bufsz.toNat := by
    rw [h]
    exact congrArg (· % bufsz.toNat) (Nat.zero_add _)
  have hlt : missed.length % bufsz.toNat < bufsz.toNat := Nat.mod_lt _ hB
  have hbufsz : s.bufsz = bufsz := by rw [h]; rfl
  have hpos : (s.dmaReceive bytes).dmaPos < (s.dmaReceive bytes).bufsz.toNat :=
    Nat.mod_lt _ (hbufsz ▸ hB)
  have hput : s.rxFifo.putIndex.toNat = missed.length % bufsz.toNat := by
    rw [← hs, h]
    exact toNat_putIndex_moved (Nat.mod_lt _ hB)
  have hlast : s.lastIndex.toNat = s.rxFifo.putIndex.toNat := by
    rw [hput, ← hs, h]
    exact toNat_lastIndex_moved (Nat.mod_lt _ hB)
  have hfull : s.rxFifo.isFull = false := by rw [h]; rfl
  -- `get_index` is where it was when the device was opened
  have hget : s.rxFifo.getIndex ≤ s.rxFifo.putIndex := by
    rw [h]
    exact UInt16.zero_le
  have hiff : (s.dmaReceive bytes).dmaPos = (s.dmaReceive bytes).rxFifo.putIndex.toNat ↔
      bufsz.toNat ∣ bytes.length := by
    change (s.dmaPos + bytes.length) % s.bufsz.toNat = s.rxFifo.putIndex.toNat ↔ _
    rw [hs, hput, hbufsz, add_mod_eq_self_iff hlt, Nat.dvd_iff_mod_eq_zero]
  -- two bursts in a row leave what one burst of both would
  have hmoved : (s.dmaReceive bytes).moved =
      ((SerialDevice.opened bufsz buffer).dmaReceive (missed ++ bytes)).moved := by
    rw [h, moved_dmaReceive_moved]
  rw [uartIsr_eq hpos hlast hfull hget, hmoved]
  simp only [hiff]

/-- The first burst that is reported: the call gets the end of everything that has arrived, and the
indices are in step afterwards. -/
theorem Missed.receive {r : DbusReceiver} (h : Missed bufsz buffer missed r.serial)
    (hB : 0 < bufsz.toNat) (hle : bufsz.toNat ≤ 32768) {bytes : List UInt8}
    (hn : ¬ bufsz.toNat ∣ bytes.length) :
    (r.receive bytes).1.serial.Synced ∧ (r.receive bytes).1.serial.bufsz = bufsz ∧
      (r.receive bytes).2 =
        [{ size := UInt32.ofNat ((missed ++ bytes).length % bufsz.toNat)
           bytes := lastTurn bufsz.toNat (missed ++ bytes) }] := by
  have hsynced := synced_opened hB buffer
  have hisr := h.uartIsr_dmaReceive hB bytes
  rw [if_neg hn] at hisr
  -- the device is the one that received everything as a single burst
  have hlen := hsynced.toNat_calcRecvedLen_moved (missed ++ bytes)
  change _ = (missed ++ bytes).length % bufsz.toNat at hlen
  have hsize : ((SerialDevice.opened bufsz buffer).dmaReceive
      (missed ++ bytes)).moved.calcRecvedLen =
        UInt32.ofNat ((missed ++ bytes).length % bufsz.toNat) := by
    rw [← hlen, UInt32.ofNat_toNat]
  unfold DbusReceiver.receive
  simp only [hisr, DbusReceiver.rxIndicate]
  by_cases hall : bufsz.toNat ∣ (missed ++ bytes).length
  · -- whole turns in all: the callback reads nothing, and the channel is back at the start
    have hzero : (missed ++ bytes).length % bufsz.toNat = 0 := Nat.mod_eq_zero_of_dvd hall
    have hnone : ((SerialDevice.opened bufsz buffer).dmaReceive
        (missed ++ bytes)).moved.calcRecvedLen = 0 := by
      rw [hsize, hzero]
      rfl
    have hpos : ((SerialDevice.opened bufsz buffer).dmaReceive (missed ++ bytes)).dmaPos = 0 := by
      change (0 + (missed ++ bytes).length) % bufsz.toNat = 0
      rw [Nat.zero_add, hzero]
    have hlt : ((SerialDevice.opened bufsz buffer).dmaReceive (missed ++ bytes)).dmaPos <
        bufsz.toNat := hpos.trans_lt hB
    rw [UInt32.toUInt32_toInt32, hnone]
    refine ⟨⟨hlt, toNat_lastIndex_moved hlt, toNat_putIndex_moved hlt, hpos.symm, rfl⟩, rfl, ?_⟩
    rw [hzero, lastTurn, hzero, Nat.sub_zero, List.drop_length]
    rfl
  -- not whole turns in all: the callback reads the rest, in one go
  · have hnext := serial_next_of_synced (r := DbusReceiver.opened bufsz buffer r.dbus) hsynced
      (missed ++ bytes)
    have hfits := (synced_next_iff (r := DbusReceiver.opened bufsz buffer r.dbus) hsynced
      (missed ++ bytes)).mpr ?_
    · rw [hnext] at hfits
      change (if bufsz.toNat ∣ _ then _ else _ : SerialDevice).Synced at hfits
      rw [if_neg hall] at hfits
      rw [hsynced.read_dmaReceive hall, UInt32.toUInt32_toInt32, hsize]
      exact ⟨hfits, rfl, rfl⟩
    · change 0 + (missed ++ bytes).length % bufsz.toNat ≤ 65535
      have hlt := Nat.mod_lt (missed ++ bytes).length hB
      omega

/-! ## Every start -/

/-- In step, and with a buffer up to half the range of the indices, everything is received
exactly. -/
theorem trace_of_synced {r : DbusReceiver} (h : r.serial.Synced) (hbufsz : r.serial.bufsz = bufsz)
    (hle : bufsz.toNat ≤ 32768) (bursts : List (List UInt8)) :
    receptionMachine.trace r bursts = bursts.flatMap (deliveries bufsz.toNat) := by
  refine Machine.trace_eq_flatMap_of_along (P := fun _ _ => True)
    (I := fun r => r.serial.Synced ∧ r.serial.bufsz = bufsz)
    (fun r bytes hr _ => by rw [emit_of_synced hr.1, hr.2]) (fun r bytes hr _ => ⟨?_, ?_⟩)
    ⟨h, hbufsz⟩ (Machine.along_of_forall (Q := fun _ => True) (fun _ _ => trivial) r)
  -- half the range twice is within the range
  · have hpos := hr.1.pos_lt
    have hlt := Nat.mod_lt bytes.length (Nat.zero_lt_of_lt hpos)
    refine (synced_next_iff hr.1 bytes).mpr ?_
    rw [hr.2] at hpos hlt ⊢
    omega
  · rw [bufsz_next, hr.2]

/-- Once the callback is registered, the receiver is the one of `receptionMachine`. -/
theorem trace_registered (r : DbusReceiver) (bursts : List (List UInt8)) :
    startupMachine.trace ⟨r, true⟩ (bursts.map .burst) = receptionMachine.trace r bursts := by
  -- registered, each burst is the step of the receiver
  induction bursts generalizing r with
  | nil => rfl
  | cons bytes bursts ih =>
    exact congrArg ((r.receive bytes).2 ++ ·) (ih (r.receive bytes).1)

/-- Before that nothing is called, and nothing is read. -/
theorem Missed.unregistered {r : DbusReceiver} (h : Missed bufsz buffer missed r.serial)
    (hB : 0 < bufsz.toNat) (bursts : List (List UInt8)) :
    startupMachine.trace ⟨r, false⟩ (bursts.map .burst) = [] ∧
      ∃ r' : DbusReceiver, startupMachine.run ⟨r, false⟩ (bursts.map .burst) = ⟨r', false⟩ ∧
        Missed bufsz buffer (missed ++ bursts.flatten) r'.serial := by
  -- each burst is added to what was missed
  induction bursts generalizing r missed with
  | nil => exact ⟨rfl, r, rfl, by rwa [List.flatten_nil, List.append_nil]⟩
  | cons bytes bursts ih =>
    have hnext : Missed bufsz buffer (missed ++ bytes)
        (r.serial.dmaReceive bytes).uartIsr.1 := by
      rw [h.uartIsr_dmaReceive hB]
      rfl
    obtain ⟨htrace, r', hrun, hr'⟩ := ih
      (r := { r with serial := (r.serial.dmaReceive bytes).uartIsr.1 }) hnext
    rw [List.append_assoc, ← List.flatten_cons] at hr'
    exact ⟨htrace, r', hrun, hr'⟩

/-- The calls from the registration on. -/
theorem Missed.trace {r : DbusReceiver} (h : Missed bufsz buffer missed r.serial)
    (hB : 0 < bufsz.toNat) (hle : bufsz.toNat ≤ 32768) (bursts : List (List UInt8)) :
    receptionMachine.trace r bursts = startupDeliveries bufsz.toNat missed bursts := by
  induction bursts generalizing r missed with
  | nil => rfl
  | cons bytes bursts ih =>
    rw [Machine.trace_cons, startupDeliveries]
    split
    · next hdvd =>
      -- whole turns are not reported, and are missed as well
      have hreceive : r.receive bytes =
          ({ r with
              serial := ((SerialDevice.opened bufsz buffer).dmaReceive (missed ++ bytes)).moved },
            []) := by
        unfold DbusReceiver.receive
        simp only [h.uartIsr_dmaReceive hB bytes, if_pos hdvd]
      rw [next_receptionMachine, emit_receptionMachine, hreceive]
      exact ih rfl
    · next hdvd =>
      -- the first report: the call is given the end of all, and from here the indices are in step
      obtain ⟨hsynced, hbufsz, hcall⟩ := h.receive hB hle hdvd
      rw [emit_receptionMachine, hcall, next_receptionMachine,
        trace_of_synced hsynced hbufsz hle]
      rfl

/-- No call is given as many bytes as the buffer has. -/
theorem size_of_mem_startupDeliveries {B : ℕ} (hB : 0 < B) (hle : B ≤ 32768)
    (bursts : List (List UInt8)) :
    ∀ d ∈ startupDeliveries B missed bursts,
      d.size.toNat = d.bytes.length ∧ d.bytes.length < B := by
  -- a call is given less than a turn, and told how much
  have hcall : ∀ bytes : List UInt8,
      (UInt32.ofNat (bytes.length % B)).toNat = (lastTurn B bytes).length ∧
        (lastTurn B bytes).length < B := by
    intro bytes
    have hlt := Nat.mod_lt bytes.length hB
    have hmod := Nat.mod_le bytes.length B
    have hlen : (lastTurn B bytes).length = bytes.length % B := by
      rw [lastTurn, List.length_drop]
      omega
    exact ⟨(UInt32.toNat_ofNat_of_lt' (show _ < 2 ^ 32 by omega)).trans hlen.symm, hlen ▸ hlt⟩
  -- until the first report nothing is called; from then on each burst on its own
  induction bursts generalizing missed with
  | nil => exact List.forall_mem_nil _
  | cons bytes bursts ih =>
    rw [startupDeliveries]
    split
    · exact ih
    · intro d hd
      rcases List.mem_cons.mp hd with rfl | hd
      · exact hcall _
      · obtain ⟨burst, -, hmem⟩ := List.mem_flatMap.mp hd
        unfold deliveries at hmem
        split_ifs at hmem
        · exact absurd hmem List.not_mem_nil
        · rw [List.mem_singleton.mp hmem]
          exact hcall _

/-- **Run lemma.** Whatever arrives between `rt_device_open` and `rt_device_set_rx_indicate`, the
first call after it is given the end of everything since the device was opened, every later burst is
received exactly, and no call is given a whole buffer: with the configured 19 bytes the 18 of
`dbus_rx_buffer` are never overrun. -/
theorem dbusStartup_exact (hB : 0 < bufsz.toNat) (hle : bufsz.toNat ≤ 32768) (buffer : ℕ → UInt8)
    (dbus : DbusState) (before after : List (List UInt8)) :
    startupMachine.trace ⟨.opened bufsz buffer dbus, false⟩
        (before.map .burst ++ .setRxIndicate :: after.map .burst) =
      startupDeliveries bufsz.toNat before.flatten after ∧
    ∀ d ∈ startupDeliveries bufsz.toNat before.flatten after,
      d.size.toNat = d.bytes.length ∧ d.bytes.length < bufsz.toNat := by
  refine ⟨?_, size_of_mem_startupDeliveries hB hle after⟩
  have hopened : Missed bufsz buffer [] (DbusReceiver.opened bufsz buffer dbus).serial :=
    missed_opened bufsz buffer
  obtain ⟨htrace, r, hrun, hr⟩ := hopened.unregistered hB before
  -- the run in three parts: before the registration, the registration, after it
  rw [Machine.trace_append, htrace, hrun, List.nil_append, Machine.trace_cons]
  refine Eq.trans ?_ (hr.trace hB hle after)
  exact trace_registered r after

/-- Two frames arrive before the registration, the third is cut off at the front. -/
theorem dbusStartup_exact_nineteen :
    startupMachine.trace ⟨.opened 19 (fun _ => 0) .zero, false⟩
        ([List.replicate 18 1, List.replicate 18 2].map .burst ++
          .setRxIndicate :: [List.replicate 18 3].map .burst) =
      startupDeliveries 19 [List.replicate 18 1, List.replicate 18 2].flatten
        [List.replicate 18 3] :=
  (dbusStartup_exact (show 0 < (19 : UInt16).toNat by decide) (by decide) (fun _ => 0) .zero _ _).1

end RobomasterFirmware.Applications
