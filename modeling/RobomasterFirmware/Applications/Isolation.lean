import RobomasterFirmware.Applications.CanRw
import RobomasterFirmware.Lib.Machine

/-!
# Isolation of the Motors

A two-run property: if two runs differ only in the data of feedback frames with certain
identifiers, then what they transmit differs at most in the command slots of those motors. The
relation between the two states is `AgreeExcept`; every event preserves it.

Nothing is assumed about the arithmetic of the controllers, so the result holds for rounded
arithmetic as well.

## Main Results
- `AgreeExcept.dispatch`, `AgreeExcept.motionIteration`: the step lemmas
- `trace_agreeOutside`: the run lemma, for any set of identifiers
- `feedback_isolated`: the command bytes that each motor can influence
-/

namespace RobomasterFirmware.Applications

open RobomasterFirmware.Algorithm
open RobomasterFirmware.Lib

/-! ## The system -/

/-- A frame dispatched by the CAN thread, a buffer decoded, one iteration of the motion task, and
the transmission of the two command frames. -/
inductive ChassisEvent where
  | dispatch (rxmsg : RtCanMsg)
  | rcProcess (buffer : DbusFrame)
  | motion
  | send

section Feedback

variable {F D : Type}

/-- The system over these events; it shows the transmitted frames. -/
def chassisMachine [CFloat F] [CFloat D] [CNarrow D F] :
    Machine (Globals F D) ChassisEvent RtCanMsg where
  step g
    | .dispatch rxmsg => (Applications.dispatch g rxmsg, [])
    | .rcProcess buffer => ({ g with rc := Algorithm.rcProcess g.rc buffer }, [])
    | .motion => (motionIteration g, [])
    | .send => (g, commandFrames g)

/-! ## Two runs -/

/-- The same event, except perhaps for the data of a frame with an identifier in `S`. -/
inductive SameExceptData (S : BitVec 29 → Prop) : ChassisEvent → ChassisEvent → Prop
  | same (e : ChassisEvent) : SameExceptData S e e
  | data (rxmsg : RtCanMsg) (data : Vector UInt8 8) (h : S rxmsg.id) :
    SameExceptData S (.dispatch rxmsg) (.dispatch { rxmsg with data := data })

/-- The identifier of the feedback of wheel `i`. -/
def wheelId (i : Fin 4) : BitVec 29 := 0x201 + BitVec.ofNat 29 i.val

/-- The two states agree, except perhaps in what belongs to the motors with an identifier in
`S`. -/
structure AgreeExcept (S : BitVec 29 → Prop) (g h : Globals F D) : Prop where
  rc : g.rc = h.rc
  rcch : g.rcch = h.rcch
  setSpdMacnum : g.setSpdMacnum = h.setSpdMacnum
  wheel (i : Fin 4) : ¬ S (wheelId i) →
    g.motoMacnum i = h.motoMacnum i ∧ g.pidMacnum i = h.pidMacnum i ∧
      g.currentMacnum i = h.currentMacnum i
  yaw : ¬ S 0x205 → g.motoYaw = h.motoYaw ∧ g.pidYaw = h.pidYaw ∧ g.voltageYaw = h.voltageYaw
  pit : ¬ S 0x206 → g.motoPit = h.motoPit ∧ g.pidPit = h.pidPit ∧ g.voltagePit = h.voltagePit

variable {S : BitVec 29 → Prop} {g h : Globals F D}

theorem AgreeExcept.refl (S : BitVec 29 → Prop) (g : Globals F D) : AgreeExcept S g g where
  rc := rfl
  rcch := rfl
  setSpdMacnum := rfl
  wheel _ _ := ⟨rfl, rfl, rfl⟩
  yaw _ := ⟨rfl, rfl, rfl⟩
  pit _ := ⟨rfl, rfl, rfl⟩

/-! ## Feedback -/

/-- Feedback of wheel `i` stays in the state of wheel `i`. -/
theorem AgreeExcept.measureWheel (hgh : AgreeExcept S g h) (i : Fin 4) {a b : RtCanMsg}
    (hab : ¬ S (wheelId i) → a = b) :
    AgreeExcept S (measureWheel g i a) (measureWheel h i b) where
  rc := hgh.rc
  rcch := hgh.rcch
  setSpdMacnum := hgh.setSpdMacnum
  wheel j hj := by
    obtain ⟨hmoto, hpid, hcurrent⟩ := hgh.wheel j hj
    refine ⟨?_, hpid, hcurrent⟩
    -- only the record of the frame's own wheel changes
    by_cases hji : j = i
    · subst hji
      simp only [Applications.measureWheel, Function.update_self, hmoto, hab hj]
    · simp only [Applications.measureWheel, Function.update_of_ne hji, hmoto]
  yaw := hgh.yaw
  pit := hgh.pit

/-- A case of the switch keeps the states in agreement. -/
theorem AgreeExcept.measure (hgh : AgreeExcept S g h) (m : CanMessageId) {a b : RtCanMsg}
    (hab : ¬ S m.value → a = b) :
    AgreeExcept S (measure g a m) (measure h b m) := by
  -- a case writes the record of one motor, and writes the same unless the identifier is in `S`
  cases m with
  | motorLF => exact hgh.measureWheel 0 hab
  | motorRF => exact hgh.measureWheel 1 hab
  | motorLB => exact hgh.measureWheel 2 hab
  | motorRB => exact hgh.measureWheel 3 hab
  | yawFeedback =>
    refine ⟨hgh.rc, hgh.rcch, hgh.setSpdMacnum, hgh.wheel, fun hS => ?_, hgh.pit⟩
    obtain ⟨hmoto, hrest⟩ := hgh.yaw hS
    exact ⟨by simp only [Applications.measure, hmoto, hab hS], hrest⟩
  | pitFeedback =>
    refine ⟨hgh.rc, hgh.rcch, hgh.setSpdMacnum, hgh.wheel, hgh.yaw, fun hS => ?_⟩
    obtain ⟨hmoto, hrest⟩ := hgh.pit hS
    exact ⟨by simp only [Applications.measure, hmoto, hab hS], hrest⟩
  -- no command depends on this record, so the relation does not speak of it
  | pokeFeedback => exact ⟨hgh.rc, hgh.rcch, hgh.setSpdMacnum, hgh.wheel, hgh.yaw, hgh.pit⟩

/-- **Step lemma.** Frames with the same identifier, and the same data unless the identifier is in
`S`, keep the states in agreement. -/
theorem AgreeExcept.dispatch (hgh : AgreeExcept S g h) {a b : RtCanMsg} (hid : a.id = b.id)
    (hab : ¬ S a.id → a = b) : AgreeExcept S (dispatch g a) (dispatch h b) := by
  unfold Applications.dispatch
  rw [← hid]
  -- an identifier of no motor changes nothing
  split
  · next m hm => exact hgh.measure m fun hS => hab (CanMessageId.ofValue?_eq_some hm ▸ hS)
  · exact hgh

/-! ## Transmission -/

/-- The command bytes of the motor with feedback identifier `id`. -/
def CommandByte (id frame : BitVec 29) (k : Fin 8) : Prop :=
  (∃ i : Fin 4, id = wheelId i ∧ frame = 0x200 ∧ k.val / 2 = i.val) ∨
    (id = 0x205 ∧ frame = 0x1FF ∧ k.val / 2 = 0) ∨ (id = 0x206 ∧ frame = 0x1FF ∧ k.val / 2 = 1)

/-- The two frames agree outside the bytes `B`, which may depend on the identifier. -/
structure AgreeOutside (B : BitVec 29 → Fin 8 → Prop) (a b : RtCanMsg) : Prop where
  id : a.id = b.id
  ide : a.ide = b.ide
  rtr : a.rtr = b.rtr
  len : a.len = b.len
  hdr : a.hdr = b.hdr
  data (k : Fin 8) : ¬ B a.id k → a.data.get k = b.data.get k

theorem AgreeOutside.mono {B C : BitVec 29 → Fin 8 → Prop} (hBC : ∀ frame k, B frame k → C frame k)
    {a b : RtCanMsg} (hab : AgreeOutside B a b) : AgreeOutside C a b :=
  { hab with data := fun k hk => hab.data k fun hB => hk (hBC _ _ hB) }

/-- Frames that agree outside no bytes are equal. -/
theorem AgreeOutside.eq {a b : RtCanMsg} (hab : AgreeOutside (fun _ _ => False) a b) : a = b := by
  obtain ⟨id, ide, rtr, len, hdr, data⟩ := a
  obtain ⟨id', ide', rtr', len', hdr', data'⟩ := b
  obtain ⟨rfl, rfl, rfl, rfl, rfl, hdata⟩ := hab
  -- all eight bytes agree
  have hvec : data = data' := Vector.ext fun k hk => hdata ⟨k, hk⟩ not_false
  rw [hvec]

/-- The slots of the voltage frame. -/
private theorem AgreeExcept.voltages (hgh : AgreeExcept S g h) {k : Fin 8}
    (hk : ¬ ∃ id, S id ∧ CommandByte id 0x1FF k) (j : Fin 4) (hj : k.val / 2 = j.val) :
    ![g.voltageYaw, g.voltagePit, 0, 0] j = ![h.voltageYaw, h.voltagePit, 0, 0] j := by
  -- yaw and pitch, and two slots that are always zero
  fin_cases j
  · exact (hgh.yaw fun hS => hk ⟨0x205, hS, .inr (.inl ⟨rfl, rfl, hj⟩)⟩).2.2
  · exact (hgh.pit fun hS => hk ⟨0x206, hS, .inr (.inr ⟨rfl, rfl, hj⟩)⟩).2.2
  · rfl
  · rfl

/-- The slots of the current frame. -/
private theorem AgreeExcept.currents (hgh : AgreeExcept S g h) {k : Fin 8}
    (hk : ¬ ∃ id, S id ∧ CommandByte id 0x200 k) (j : Fin 4) (hj : k.val / 2 = j.val) :
    g.currentMacnum j = h.currentMacnum j :=
  (hgh.wheel j fun hS => hk ⟨wheelId j, hS, .inl ⟨j, rfl, rfl, hj⟩⟩).2.2

private theorem vec_currents (c : Fin 4 → Int16) : ![c 0, c 1, c 2, c 3] = c := by
  funext j
  fin_cases j <;> rfl

/-- What is transmitted from agreeing states. -/
theorem AgreeExcept.commandFrames (hgh : AgreeExcept S g h) :
    List.Forall₂ (AgreeOutside fun frame k => ∃ id, S id ∧ CommandByte id frame k)
      (commandFrames g) (commandFrames h) := by
  refine .cons ⟨rfl, rfl, rfl, rfl, rfl, fun k hk => ?_⟩
    (.cons ⟨rfl, rfl, rfl, rfl, rfl, fun k hk => ?_⟩ .nil)
  -- a byte shows the slot of one motor, which agrees unless the motor is in `S`
  · rw [data_setMotorVoltage, data_setMotorVoltage]
    exact commandBytes_congr k (hgh.voltages hk _ rfl)
  · rw [data_setMotorCurrent, data_setMotorCurrent, vec_currents, vec_currents]
    exact commandBytes_congr k (hgh.currents hk _ rfl)

end Feedback

section Motion

variable {F D : Type} [CFloat F] [CFloat D] [CNarrow D F] {S : BitVec 29 → Prop}
  {g h : Globals F D}

/-! ## The motion task -/

/-- Every statement of the loop keeps the states in agreement: a controller reads the feedback of
its own motor only. -/
theorem AgreeExcept.execStmt (hgh : AgreeExcept S g h) (st : MotionStmt) :
    AgreeExcept S (execStmt g st) (execStmt h st) := by
  cases st with
  -- the sticks and the mix do not depend on any feedback
  | rcch k =>
    refine ⟨hgh.rc, ?_, hgh.setSpdMacnum, hgh.wheel, hgh.yaw, hgh.pit⟩
    simp only [Applications.execStmt, hgh.rc, hgh.rcch]
  -- a controller of the gimbal reads the record of its motor and a channel of the remote control
  | voltageYaw =>
    refine ⟨hgh.rc, hgh.rcch, hgh.setSpdMacnum, hgh.wheel, fun hS => ?_, hgh.pit⟩
    obtain ⟨hmoto, hpid, -⟩ := hgh.yaw hS
    have hcontrol : yawControl g = yawControl h := by simp only [yawControl, hmoto, hpid, hgh.rc]
    exact ⟨hmoto, congrArg Prod.fst hcontrol, congrArg (fun r => CFloat.toInt16 r.2) hcontrol⟩
  | voltagePit =>
    refine ⟨hgh.rc, hgh.rcch, hgh.setSpdMacnum, hgh.wheel, hgh.yaw, fun hS => ?_⟩
    obtain ⟨hmoto, hpid, -⟩ := hgh.pit hS
    have hcontrol : pitControl g = pitControl h := by simp only [pitControl, hmoto, hpid, hgh.rc]
    exact ⟨hmoto, congrArg Prod.fst hcontrol, congrArg (fun r => CFloat.toInt16 r.2) hcontrol⟩
  | mecanumCalc =>
    refine ⟨hgh.rc, hgh.rcch, ?_, hgh.wheel, hgh.yaw, hgh.pit⟩
    simp only [Applications.execStmt, hgh.rcch]
  | currentMacnum i =>
    refine ⟨hgh.rc, hgh.rcch, hgh.setSpdMacnum, fun j hj => ?_, hgh.yaw, hgh.pit⟩
    obtain ⟨hmoto, hpid, hcurrent⟩ := hgh.wheel j hj
    -- the controller of wheel `i` reads the set point and its own feedback
    by_cases hji : j = i
    · subst hji
      have hcontrol : wheelControl g j = wheelControl h j := by
        simp only [wheelControl, hmoto, hpid, hgh.setSpdMacnum]
      simp only [Applications.execStmt, Function.update_self, hmoto, hcontrol, and_self]
    · simp only [Applications.execStmt, Function.update_of_ne hji, hmoto, hpid, hcurrent, and_self]

/-- **Step lemma.** An iteration of the loop keeps the states in agreement. -/
theorem AgreeExcept.motionIteration (hgh : AgreeExcept S g h) :
    AgreeExcept S (motionIteration g) (motionIteration h) :=
  foldl_execStmt_related (fun _ _ st hst => hst.execStmt st) hgh loopBody

/-! ## Runs -/

/-- **Run lemma.** Runs that differ only in the data of frames with an identifier in `S` transmit
frames that differ at most in the command bytes of those motors. -/
theorem trace_agreeOutside (g : Globals F D) {es fs : List ChassisEvent}
    (hes : List.Forall₂ (SameExceptData S) es fs) :
    List.Forall₂ (AgreeOutside fun frame k => ∃ id, S id ∧ CommandByte id frame k)
      (chassisMachine.trace g es) (chassisMachine.trace g fs) := by
  refine (Machine.trace_related (R := AgreeExcept S) (E := SameExceptData S) ?_ ?_
    (AgreeExcept.refl S g) hes).2
  -- the states stay in agreement
  · intro s t e f hst hef
    cases hef with
    | data rxmsg data hS => exact hst.dispatch rfl fun hn => absurd hS hn
    | same e =>
      cases e with
      | dispatch rxmsg => exact hst.dispatch rfl fun _ => rfl
      -- both runs decode the same buffer over the same record
      | rcProcess buffer =>
        exact ⟨congrArg (Algorithm.rcProcess · buffer) hst.rc, hst.rcch, hst.setSpdMacnum,
          hst.wheel, hst.yaw, hst.pit⟩
      | motion => exact hst.motionIteration
      | send => exact hst
  -- and what they show agrees: only a transmission shows anything
  · intro s t e f hst hef
    cases hef with
    | data rxmsg data hS => exact .nil
    | same e =>
      cases e with
      | send => exact hst.commandFrames
      | _ => exact .nil

/-! ## Slots -/

/-- Each slot of the transmitted frames reads back as the command variable of its motor. -/
theorem emit_send_slots (g : Globals F D) :
    ∃ v c, chassisMachine.emit g .send = [v, c] ∧ v.id = 0x1FF ∧ c.id = 0x200 ∧
      slot v.data 0 = g.voltageYaw ∧ slot v.data 1 = g.voltagePit ∧
        ∀ i, slot c.data i = g.currentMacnum i := by
  refine ⟨_, _, rfl, rfl, rfl, ?_, ?_, fun i => ?_⟩
  · rw [data_setMotorVoltage, slot_commandBytes]
    rfl
  · rw [data_setMotorVoltage, slot_commandBytes]
    rfl
  · rw [data_setMotorCurrent, slot_commandBytes, vec_currents]

private theorem wheelId_inj : ∀ i j, wheelId i = wheelId j → i = j := by decide

private theorem wheelId_ne : ∀ i, wheelId i ≠ 0x205 ∧ wheelId i ≠ 0x206 := by decide

theorem commandByte_wheel {i : Fin 4} {frame : BitVec 29} {k : Fin 8}
    (h : CommandByte (wheelId i) frame k) : frame = 0x200 ∧ k.val / 2 = i.val := by
  -- a wheel is no gimbal motor, and no other wheel
  rcases h with ⟨j, hj, hframe, hk⟩ | ⟨hj, -⟩ | ⟨hj, -⟩
  · exact ⟨hframe, wheelId_inj i j hj ▸ hk⟩
  · exact absurd hj (wheelId_ne i).1
  · exact absurd hj (wheelId_ne i).2

theorem commandByte_yaw {frame : BitVec 29} {k : Fin 8} (h : CommandByte 0x205 frame k) :
    frame = 0x1FF ∧ k.val / 2 = 0 := by
  rcases h with ⟨j, hj, -⟩ | ⟨-, h⟩ | ⟨hj, -⟩
  · exact absurd hj.symm (wheelId_ne j).1
  · exact h
  · exact absurd hj (by decide)

theorem commandByte_pit {frame : BitVec 29} {k : Fin 8} (h : CommandByte 0x206 frame k) :
    frame = 0x1FF ∧ k.val / 2 = 1 := by
  rcases h with ⟨j, hj, -⟩ | ⟨hj, -⟩ | ⟨-, h⟩
  · exact absurd hj.symm (wheelId_ne j).2
  · exact absurd hj (by decide)
  · exact h

/-- Only the identifiers of the wheels and the gimbal own command bytes. -/
theorem not_commandByte {id : BitVec 29} (hid : ∀ i < 6, id ≠ 0x201 + BitVec.ofNat 29 i)
    (frame : BitVec 29) (k : Fin 8) : ¬ CommandByte id frame k := by
  rintro (⟨i, rfl, -⟩ | ⟨rfl, -⟩ | ⟨rfl, -⟩)
  · exact hid i.val (by omega) rfl
  · exact hid 4 (by decide) rfl
  · exact hid 5 (by decide) rfl

/-- The frames of the two runs agree outside any bytes that include those of the motors in `S`. -/
theorem trace_agreeOutside_of (g : Globals F D) {es fs : List ChassisEvent}
    (hes : List.Forall₂ (SameExceptData S) es fs) {B : BitVec 29 → Fin 8 → Prop}
    (hB : ∀ id frame k, S id → CommandByte id frame k → B frame k) :
    List.Forall₂ (AgreeOutside B) (chassisMachine.trace g es) (chassisMachine.trace g fs) := by
  apply (trace_agreeOutside g hes).imp
  intro a b hab
  apply hab.mono
  rintro frame k ⟨id, hid, hbyte⟩
  exact hB id frame k hid hbyte

/-- **Feedback and command addressing agree, and motors do not interfere.** The data of the frames
of wheel `i` can influence only its two bytes of the `0x200` frames, those of yaw and pitch only
theirs of the `0x1FF` frames, those of all other identifiers nothing; and in every run each slot
carries the current command of its motor. -/
theorem feedback_isolated :
    (∀ (i : Fin 4) (g : Globals F D) (es fs : List ChassisEvent),
      List.Forall₂ (SameExceptData (· = wheelId i)) es fs →
        List.Forall₂ (AgreeOutside fun frame k =>
            frame = 0x200 ∧ (k.val = 2 * i.val ∨ k.val = 2 * i.val + 1))
          (chassisMachine.trace g es) (chassisMachine.trace g fs)) ∧
    (∀ (g : Globals F D) (es fs : List ChassisEvent),
      List.Forall₂ (SameExceptData (· = 0x205)) es fs →
        List.Forall₂ (AgreeOutside fun frame k => frame = 0x1FF ∧ (k.val = 0 ∨ k.val = 1))
          (chassisMachine.trace g es) (chassisMachine.trace g fs)) ∧
    (∀ (g : Globals F D) (es fs : List ChassisEvent),
      List.Forall₂ (SameExceptData (· = 0x206)) es fs →
        List.Forall₂ (AgreeOutside fun frame k => frame = 0x1FF ∧ (k.val = 2 ∨ k.val = 3))
          (chassisMachine.trace g es) (chassisMachine.trace g fs)) ∧
    (∀ (S : BitVec 29 → Prop) (g : Globals F D) (es fs : List ChassisEvent),
      (∀ id, S id → ∀ i < 6, id ≠ 0x201 + BitVec.ofNat 29 i) →
        List.Forall₂ (SameExceptData S) es fs →
          chassisMachine.trace g es = chassisMachine.trace g fs) ∧
    ∀ (g : Globals F D) (es : List ChassisEvent),
      ∃ v c, chassisMachine.emit (chassisMachine.run g es) .send = [v, c] ∧
        v.id = 0x1FF ∧ c.id = 0x200 ∧
        slot v.data 0 = (chassisMachine.run g es).voltageYaw ∧
        slot v.data 1 = (chassisMachine.run g es).voltagePit ∧
        ∀ i, slot c.data i = (chassisMachine.run g es).currentMacnum i := by
  refine ⟨?_, ?_, ?_, ?_, fun g es => emit_send_slots _⟩
  · intro i g es fs hes
    apply trace_agreeOutside_of g hes
    rintro id frame k rfl hbyte
    -- the bytes `2 i` and `2 i + 1`
    obtain ⟨hframe, hk⟩ := commandByte_wheel hbyte
    exact ⟨hframe, by omega⟩
  · intro g es fs hes
    apply trace_agreeOutside_of g hes
    rintro id frame k rfl hbyte
    obtain ⟨hframe, hk⟩ := commandByte_yaw hbyte
    exact ⟨hframe, by omega⟩
  · intro g es fs hes
    apply trace_agreeOutside_of g hes
    rintro id frame k rfl hbyte
    obtain ⟨hframe, hk⟩ := commandByte_pit hbyte
    exact ⟨hframe, by omega⟩
  · intro S g es fs hS hes
    -- frames of other identifiers own no bytes, so the runs agree outside none
    have hagree : List.Forall₂ (AgreeOutside fun _ _ => False) (chassisMachine.trace g es)
        (chassisMachine.trace g fs) := by
      apply trace_agreeOutside_of g hes
      intro id frame k hid hbyte
      exact not_commandByte (hS id hid) frame k hbyte
    rw [← List.forall₂_eq_eq_eq]
    exact hagree.imp fun _ _ => AgreeOutside.eq

end Motion

/-- Two runs in which the second wheel reports different speeds. -/
theorem feedback_isolated_wheel :
    List.Forall₂ (AgreeOutside fun frame k =>
        frame = 0x200 ∧ (k.val = 2 * (1 : Fin 4).val ∨ k.val = 2 * (1 : Fin 4).val + 1))
      (chassisMachine.trace (powerOn : Globals ℚ ℚ)
        [.dispatch { RtCanMsg.zero with id := 0x202 }, .motion, .send])
      (chassisMachine.trace (powerOn : Globals ℚ ℚ)
        [.dispatch { RtCanMsg.zero with id := 0x202, data := #v[0, 0, 1, 0, 0, 0, 0, 0] }, .motion,
          .send]) :=
  feedback_isolated.1 1 powerOn _ _
    (.cons (.data _ _ rfl) (.cons (.same _) (.cons (.same _) .nil)))

end RobomasterFirmware.Applications
