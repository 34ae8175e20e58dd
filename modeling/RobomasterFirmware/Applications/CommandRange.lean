import RobomasterFirmware.Algorithm.RcProcess
import RobomasterFirmware.Applications.CanRw
import RobomasterFirmware.Lib.Machine
import Mathlib.Data.Fintype.Basic
import Mathlib.Tactic.FinCases
import Mathlib.Tactic.NormNum

/-!
# The Range of the Motor Commands

In exact arithmetic the path from stick to motor command never leaves its ranges: the statements of
the motion loop interleave with the other threads in any order, and still no clamp of `Mecanum_calc`
is active, no conversion to `int16_t` overflows, and every command stays within the output limit of
its controller.

The state carries two ghost components, the channels that the loop read last and those behind the
current wheel speeds: with the other threads running in between they need not belong to the same
remote-control record.

## Main Results
- `assigned_execStmt`, `clamped_rangeChecks`: the checks are those of the statements
- `MotionInv`, `motionInv_next`: the invariant and its step lemma
- `commands_in_range`: what follows for every run from power-on
-/

namespace RobomasterFirmware.Applications

open RobomasterFirmware.Algorithm
open RobomasterFirmware.Lib

/-! ## The system -/

/-- A buffer decoded, feedback decoded for one motor, or the next statement of the loop. -/
inductive MotionEvent where
  | rcProcess (buffer : DbusFrame)
  | measure (m : CanMessageId) (rxmsg : RtCanMsg)
  | stmt

/-- What a statement does that could leave a range: it clamps a value, or converts one to
`int16_t`. -/
inductive RangeCheck where
  | clamp (value : ℚ) (bound : ℤ)
  | convert (operand : ℚ)

/-- The globals, the position in the loop, and the two ghost components. -/
structure MotionState where
  globals : Globals ℚ ℚ
  pc : Fin 10
  /-- The channels that the last three assignments to `rcch` read. -/
  read : Fin 3 → Int16
  /-- The channels read for the last call of `Mecanum_calc`. -/
  mixed : Fin 3 → Int16

/-- The statement that is executed next. -/
def MotionState.stmt (s : MotionState) : MotionStmt := loopBody[s.pc]

/-- The clamps and conversions of a statement. -/
def rangeChecks (g : Globals ℚ ℚ) : MotionStmt → List RangeCheck
  | .rcch _ => []
  | .voltageYaw => [.convert (yawControl g).2]
  | .voltagePit => [.convert (pitControl g).2]
  | .mecanumCalc =>
    let vx := limitSpeed (g.rcch 0) MAX_CHASSIS_VX_SPEED
    let vy := limitSpeed (g.rcch 1) MAX_CHASSIS_VY_SPEED
    let omega := limitSpeed (g.rcch 2) MAX_CHASSIS_OMEGA_SPEED
    [.clamp (g.rcch 0) MAX_CHASSIS_VX_SPEED, .clamp (g.rcch 1) MAX_CHASSIS_VY_SPEED,
      .clamp (g.rcch 2) MAX_CHASSIS_OMEGA_SPEED, .convert (mecanumMix vx vy omega 0),
      .convert (mecanumMix vx vy omega 1), .convert (mecanumMix vx vy omega 2),
      .convert (mecanumMix vx vy omega 3)]
  | .currentMacnum i => [.convert (wheelControl g i).2]

/-- What a conversion gives. -/
def RangeCheck.converted : RangeCheck → Option Int16
  | .clamp _ _ => none
  | .convert operand => some (CFloat.toInt16 operand)

/-- What a clamp gives. -/
def RangeCheck.clamped : RangeCheck → Option ℚ
  | .clamp value bound => some (limitSpeed value bound)
  | .convert _ => none

/-- The `int16_t` variables that a statement assigns. -/
def assigned (g : Globals ℚ ℚ) : MotionStmt → List Int16
  | .rcch _ => []
  | .voltageYaw => [g.voltageYaw]
  | .voltagePit => [g.voltagePit]
  | .mecanumCalc => List.ofFn g.setSpdMacnum
  | .currentMacnum i => [g.currentMacnum i]

/-- The operands listed are those that the statement converts, in the order in which it assigns the
results. -/
theorem assigned_execStmt (g : Globals ℚ ℚ) (st : MotionStmt) :
    assigned (execStmt g st) st = (rangeChecks g st).filterMap RangeCheck.converted := by
  cases st with
  | rcch k => rfl
  | voltageYaw => rfl
  | voltagePit => rfl
  | mecanumCalc => rfl
  | currentMacnum i => simp [assigned, execStmt, rangeChecks, RangeCheck.converted]

/-- The values listed are those that `Mecanum_calc` clamps before it mixes them. -/
theorem clamped_rangeChecks (g : Globals ℚ ℚ) :
    ∃ vx vy omega, (rangeChecks g .mecanumCalc).filterMap RangeCheck.clamped = [vx, vy, omega] ∧
      (execStmt g .mecanumCalc).setSpdMacnum =
        fun i => CFloat.toInt16 (mecanumMix vx vy omega i) :=
  ⟨_, _, _, rfl, rfl⟩

/-- A statement is executed, and the ghost components follow. -/
def MotionState.exec (s : MotionState) : MotionStmt → MotionState
  | .rcch k =>
    { s with
      globals := execStmt s.globals (.rcch k)
      read := Function.update s.read k (stick s.globals.rc k) }
  | .mecanumCalc => { s with globals := execStmt s.globals .mecanumCalc, mixed := s.read }
  | st => { s with globals := execStmt s.globals st }

/-- The system over these events; it shows the clamps and conversions. -/
def motionMachine : Machine MotionState MotionEvent RangeCheck where
  step s
    | .rcProcess buffer =>
      ({ s with globals.rc := Algorithm.rcProcess s.globals.rc buffer }, [])
    | .measure m rxmsg => ({ s with globals := Applications.measure s.globals rxmsg m }, [])
    | .stmt => ({ s.exec s.stmt with pc := s.pc + 1 }, rangeChecks s.globals s.stmt)

/-- Zeroed globals, then `PID_Init`, at the top of the loop. -/
def MotionState.powerOn : MotionState where
  globals := Applications.powerOn
  pc := 0
  read _ := 0
  mixed _ := 0

/-! ## Single statements -/

/-- The clamps of `Mecanum_calc` limit to `[-bound, bound]`, like `abs_limit`. -/
theorem limitSpeed_eq_saturate (v : ℚ) {bound : ℤ} (hbound : 0 ≤ bound) :
    limitSpeed v bound = saturate (bound : ℚ) v := by
  have habs : limitSpeed v bound = absLimit v (bound : ℚ) := by
    simp only [limitSpeed, absLimit, ofInt_rat, Int.cast_neg]
  rw [habs, absLimit_eq_saturate v (by exact_mod_cast hbound)]

theorem limitSpeed_of_abs_le {v : ℚ} {bound : ℤ} (h : |v| ≤ bound) : limitSpeed v bound = v := by
  have hbound : 0 ≤ bound := by exact_mod_cast (abs_nonneg v).trans h
  rw [limitSpeed_eq_saturate v hbound, saturate_of_abs_le h]

theorem scaleStick_rat (ch : Int16) : (scaleStick ch : ℚ) = ((-9 * ch.toInt : ℤ) : ℚ) := by
  have h9 : (9.0 : ℚ) = 9 := by norm_num
  simp only [scaleStick, ofInt_rat, ofRat_rat, h9]
  push_cast
  ring

/-- A channel between the limits of the remote control. -/
def InStickRange (ch : Int16) : Prop := |ch.toInt| ≤ 660

instance (ch : Int16) : Decidable (InStickRange ch) := inferInstanceAs (Decidable (_ ≤ _))

theorem inStickRange_stick {rc : RcInfo} (h : ChannelsInRange rc) (k : Fin 3) :
    InStickRange (stick rc k) := by
  obtain ⟨h1, h2, h3, -⟩ := h
  -- the three channels that drive the chassis
  fin_cases k
  · exact abs_le.mpr h1
  · exact abs_le.mpr h2
  · exact abs_le.mpr h3

/-- The wheel speeds for three channels, in units of 9 rpm. -/
def wheelMix (ch : Fin 3 → Int16) : Fin 4 → ℤ :=
  ![(ch 0).toInt - (ch 1).toInt + (ch 2).toInt, (ch 0).toInt + (ch 1).toInt + (ch 2).toInt,
    -(ch 0).toInt + (ch 1).toInt + (ch 2).toInt, -(ch 0).toInt - (ch 1).toInt + (ch 2).toInt]

theorem abs_wheelMix_le {ch : Fin 3 → Int16} (h : ∀ k, InStickRange (ch k)) (i : Fin 4) :
    |wheelMix ch i| ≤ 1980 := by
  obtain ⟨h0, h0'⟩ := abs_le.mp (h 0)
  obtain ⟨h1, h1'⟩ := abs_le.mp (h 1)
  obtain ⟨h2, h2'⟩ := abs_le.mp (h 2)
  apply abs_le.mpr
  -- three channels of at most 660 each
  fin_cases i <;> simp [wheelMix] <;> omega

/-- In exact arithmetic the mix of the scaled channels is the integer mix. -/
theorem mecanumMix_sticks (ch : Fin 3 → Int16) (i : Fin 4) :
    mecanumMix ((-9 * (ch 0).toInt : ℤ) : ℚ) ((-9 * (ch 1).toInt : ℤ) : ℚ)
      ((-9 * (ch 2).toInt : ℤ) : ℚ) i = ((9 * wheelMix ch i : ℤ) : ℚ) := by
  fin_cases i <;> simp [mecanumMix, wheelMix] <;> ring

theorem abs_stick_le {ch : Int16} (h : InStickRange ch) {bound : ℤ} (hbound : 5940 ≤ bound) :
    |((-9 * ch.toInt : ℤ) : ℚ)| ≤ bound := by
  obtain ⟨hlo, hhi⟩ := abs_le.mp h
  have habs : |-9 * ch.toInt| ≤ bound := abs_le.mpr ⟨by omega, by omega⟩
  exact_mod_cast habs

/-! ## Controllers -/

/-- A controller in position mode, configured as `PID_Init` does, with its integral in bounds. -/
structure PidInLimits (pid : Pid ℚ) : Prop where
  pidMode : pid.pidMode = POSITION_PID
  maxOutput : pid.maxOutput = 30000
  integralLimit : pid.integralLimit = 5000
  iout : |pid.iout| ≤ 5000

theorem PidInLimits.pidCalc {pid : Pid ℚ} (h : PidInLimits pid) (get set : ℚ) :
    PidInLimits (pidCalc pid get set).1 := by
  have hconfig := sameConfig_pidCalc pid get set
  have hlimit : (pid.integralLimit.toNat : ℚ) = 5000 := by
    rw [h.integralLimit]
    rfl
  -- the integral is clamped in every call, and the configuration stays
  have hiout := abs_iout_pidCalc_le h.pidMode (hlimit ▸ h.iout) get set
  exact ⟨hconfig.pidMode.trans h.pidMode, hconfig.maxOutput.trans h.maxOutput,
    hconfig.integralLimit.trans h.integralLimit, hlimit ▸ hiout⟩

theorem PidInLimits.abs_pidCalc_le {pid : Pid ℚ} (h : PidInLimits pid) (get set : ℚ) :
    |(Algorithm.pidCalc pid get set).2| ≤ ((30000 : ℤ) : ℚ) := by
  have hout := Algorithm.abs_pidCalc_le h.pidMode get set
  rwa [h.maxOutput] at hout

/-- The converted output of a controller is a command in range. -/
theorem PidInLimits.abs_toInt16_le {pid : Pid ℚ} (h : PidInLimits pid) (get set : ℚ) :
    |(CFloat.toInt16 (Algorithm.pidCalc pid get set).2).toInt| ≤ 30000 :=
  toInt_toInt16_rat (by norm_num) (h.abs_pidCalc_le get set)

/-! ## The invariant -/

/-- The controllers and the commands derived from them. -/
structure CommandsInLimits (g : Globals ℚ ℚ) : Prop where
  pidMacnum (i : Fin 4) : PidInLimits (g.pidMacnum i)
  pidYaw : PidInLimits g.pidYaw
  pidPit : PidInLimits g.pidPit
  pidPoke : PidInLimits g.pidPoke
  currentMacnum (i : Fin 4) : |(g.currentMacnum i).toInt| ≤ 30000
  voltageYaw : |g.voltageYaw.toInt| ≤ 30000
  voltagePit : |g.voltagePit.toInt| ≤ 30000

/-- **Invariant** of the motion loop among the other threads. -/
structure MotionInv (s : MotionState) : Prop where
  rc : ChannelsInRange s.globals.rc
  read (k : Fin 3) : InStickRange (s.read k)
  rcch (k : Fin 3) : s.globals.rcch k = ((-9 * (s.read k).toInt : ℤ) : ℚ)
  setSpdMacnum (i : Fin 4) : (s.globals.setSpdMacnum i).toInt = 9 * wheelMix s.mixed i
  commands : CommandsInLimits s.globals

theorem commandsInLimits_measure {g : Globals ℚ ℚ} (h : CommandsInLimits g) (rxmsg : RtCanMsg)
    (m : CanMessageId) : CommandsInLimits (measure g rxmsg m) := by
  obtain ⟨hmacnum, hyaw, hpit, hpoke, hcurrent, hvyaw, hvpit⟩ := h
  -- feedback writes records, no commands
  cases m <;> exact ⟨hmacnum, hyaw, hpit, hpoke, hcurrent, hvyaw, hvpit⟩

theorem motionInv_measure {s : MotionState} (h : MotionInv s) (rxmsg : RtCanMsg)
    (m : CanMessageId) : MotionInv { s with globals := measure s.globals rxmsg m } where
  rc := (rc_measure s.globals rxmsg m).symm ▸ h.rc
  read := h.read
  rcch k := by cases m <;> exact h.rcch k
  setSpdMacnum i := by cases m <;> exact h.setSpdMacnum i
  commands := commandsInLimits_measure h.commands rxmsg m

theorem commandsInLimits_execStmt {g : Globals ℚ ℚ} (h : CommandsInLimits g) (st : MotionStmt) :
    CommandsInLimits (execStmt g st) := by
  cases st with
  | rcch k => exact { h with }
  | voltageYaw =>
    exact { h with
      pidYaw := h.pidYaw.pidCalc _ _
      voltageYaw := h.pidYaw.abs_toInt16_le _ _ }
  | voltagePit =>
    exact { h with
      pidPit := h.pidPit.pidCalc _ _
      voltagePit := h.pidPit.abs_toInt16_le _ _ }
  | mecanumCalc => exact { h with }
  | currentMacnum i =>
    -- the updated entry comes from its controller, the others are as before
    have hpid := h.pidMacnum i
    exact { h with
      pidMacnum := (Function.forall_update_iff g.pidMacnum fun _ => PidInLimits).mpr
        ⟨hpid.pidCalc _ _, fun j _ => h.pidMacnum j⟩
      currentMacnum := (Function.forall_update_iff g.currentMacnum fun _ c => |c.toInt| ≤ 30000).mpr
        ⟨hpid.abs_toInt16_le _ _, fun j _ => h.currentMacnum j⟩ }

/-- Reading the sticks: the new value of `rcch` is that of the channel just read. -/
theorem motionInv_exec_rcch {s : MotionState} (h : MotionInv s) (k : Fin 3) :
    MotionInv (s.exec (.rcch k)) where
  rc := h.rc
  read := (Function.forall_update_iff s.read fun _ => InStickRange).mpr
    ⟨inStickRange_stick h.rc k, fun j _ => h.read j⟩
  rcch j := by
    -- the ghost channel changes together with `rcch[k]`
    by_cases hjk : j = k
    · subst hjk
      simp only [MotionState.exec, execStmt, Function.update_self, scaleStick_rat]
    · simp only [MotionState.exec, execStmt, Function.update_of_ne hjk, h.rcch j]
  setSpdMacnum := h.setSpdMacnum
  commands := commandsInLimits_execStmt h.commands (.rcch k)

/-- The arguments of `Mecanum_calc` are within its limits. -/
theorem MotionInv.limitSpeed {s : MotionState} (h : MotionInv s) (k : Fin 3) {bound : ℤ}
    (hbound : 5940 ≤ bound) : limitSpeed (s.globals.rcch k) bound = s.globals.rcch k := by
  apply limitSpeed_of_abs_le
  rw [h.rcch k]
  exact abs_stick_le (h.read k) hbound

/-- The wheel speeds before conversion are integers. -/
theorem MotionInv.mecanumMix {s : MotionState} (h : MotionInv s) (i : Fin 4) :
    mecanumMix (s.globals.rcch 0) (s.globals.rcch 1) (s.globals.rcch 2) i =
      ((9 * wheelMix s.read i : ℤ) : ℚ) := by
  rw [h.rcch 0, h.rcch 1, h.rcch 2]
  exact mecanumMix_sticks s.read i

/-- Mixing: the wheel speeds are exact for the channels read. -/
theorem motionInv_exec_mecanumCalc {s : MotionState} (h : MotionInv s) :
    MotionInv (s.exec .mecanumCalc) where
  rc := h.rc
  read := h.read
  rcch := h.rcch
  setSpdMacnum i := by
    obtain ⟨hlo, hhi⟩ := abs_le.mp (abs_wheelMix_le h.read i)
    change (mecanumCalc (s.globals.rcch 0) (s.globals.rcch 1) (s.globals.rcch 2)
      MAX_WHEEL_SPEED i).toInt = _
    unfold mecanumCalc
    -- no clamp is active, and the mix is an integer that `int16_t` can hold
    rw [h.limitSpeed 0 (by decide), h.limitSpeed 1 (by decide), h.limitSpeed 2 (by decide),
      h.mecanumMix i]
    exact toInt_toInt16_intCast (by omega) (by omega)
  commands := commandsInLimits_execStmt h.commands .mecanumCalc

theorem motionInv_exec {s : MotionState} (h : MotionInv s) (st : MotionStmt) :
    MotionInv (s.exec st) := by
  have hcommands := commandsInLimits_execStmt h.commands st
  -- the sticks and the mix change the set points, the other statements only commands
  cases st with
  | rcch k => exact motionInv_exec_rcch h k
  | mecanumCalc => exact motionInv_exec_mecanumCalc h
  | voltageYaw => exact { h with commands := hcommands }
  | voltagePit => exact { h with commands := hcommands }
  | currentMacnum i => exact { h with commands := hcommands }

/-- **Step lemma.** Every event keeps the invariant. -/
theorem motionInv_next (s : MotionState) (e : MotionEvent) (h : MotionInv s) :
    MotionInv (motionMachine.next s e) := by
  cases e with
  | rcProcess buffer =>
    -- whatever the buffer, the check leaves the channels in range
    exact { h with
      rc := channelsInRange_rcProcess _ _
      commands := { h.commands with } }
  | measure m rxmsg => exact motionInv_measure h rxmsg m
  | stmt =>
    have hexec := motionInv_exec h s.stmt
    exact { hexec with }

theorem pidInLimits_init (kp ki kd : ℚ) :
    PidInLimits (pidStructInit .zero POSITION_PID 30000 5000 kp ki kd) where
  pidMode := rfl
  maxOutput := rfl
  integralLimit := rfl
  iout := abs_zero.trans_le (by norm_num)

theorem motionInv_powerOn : MotionInv .powerOn where
  rc := (by decide : ChannelsInRange RcInfo.zero)
  read _ := (by decide : InStickRange 0)
  rcch _ := by
    change (0 : ℚ) = ((-9 * (0 : Int16).toInt : ℤ) : ℚ)
    -- all sticks are zero
    simp
  setSpdMacnum i := by fin_cases i <;> decide
  commands :=
    { pidMacnum := fun _ => pidInLimits_init _ _ _
      pidYaw := pidInLimits_init _ _ _
      pidPit := pidInLimits_init _ _ _
      pidPoke := pidInLimits_init _ _ _
      currentMacnum := fun _ => (by decide : |(0 : Int16).toInt| ≤ 30000)
      voltageYaw := by decide
      voltagePit := by decide }

/-! ## What every step shows -/

/-- The clamp does nothing; the operand fits `int16_t`. -/
def RangeCheck.Passes : RangeCheck → Prop
  | .clamp value bound => limitSpeed value bound = value
  | .convert operand => -32768 ≤ operand ∧ operand ≤ 32767

theorem passes_convert_of_abs_le {q : ℚ} {m : ℤ} (hm : m ≤ 32767) (h : |q| ≤ m) :
    (RangeCheck.convert q).Passes := by
  obtain ⟨hlo, hhi⟩ := abs_le.mp h
  have hm' : (m : ℚ) ≤ 32767 := by exact_mod_cast hm
  exact ⟨by linarith, by linarith⟩

theorem passes_pidCalc {pid : Pid ℚ} (h : PidInLimits pid) (get set : ℚ) :
    (RangeCheck.convert (pidCalc pid get set).2).Passes :=
  passes_convert_of_abs_le (by norm_num) (h.abs_pidCalc_le get set)

theorem MotionInv.passes_mecanumMix {s : MotionState} (h : MotionInv s) (i : Fin 4) :
    (RangeCheck.convert (Applications.mecanumMix (s.globals.rcch 0) (s.globals.rcch 1)
      (s.globals.rcch 2) i)).Passes := by
  obtain ⟨hlo, hhi⟩ := abs_le.mp (abs_wheelMix_le h.read i)
  have habs : |9 * wheelMix s.read i| ≤ 17820 := abs_le.mpr ⟨by omega, by omega⟩
  rw [h.mecanumMix i]
  exact passes_convert_of_abs_le (m := 17820) (by norm_num) (by exact_mod_cast habs)

/-- In the invariant every clamp and conversion of a statement passes. -/
theorem MotionInv.passes_rangeChecks {s : MotionState} (h : MotionInv s) (st : MotionStmt) :
    ∀ c ∈ rangeChecks s.globals st, c.Passes := by
  cases st with
  | rcch k => exact List.forall_mem_nil _
  | voltageYaw => exact List.forall_mem_singleton.mpr (passes_pidCalc h.commands.pidYaw _ _)
  | voltagePit => exact List.forall_mem_singleton.mpr (passes_pidCalc h.commands.pidPit _ _)
  -- three clamps, then four conversions
  | mecanumCalc =>
    have h0 : Applications.limitSpeed (s.globals.rcch 0) MAX_CHASSIS_VX_SPEED = _ :=
      h.limitSpeed 0 (by decide)
    have h1 : Applications.limitSpeed (s.globals.rcch 1) MAX_CHASSIS_VY_SPEED = _ :=
      h.limitSpeed 1 (by decide)
    have h2 : Applications.limitSpeed (s.globals.rcch 2) MAX_CHASSIS_OMEGA_SPEED = _ :=
      h.limitSpeed 2 (by decide)
    simp only [rangeChecks, h0, h1, h2, List.forall_mem_cons]
    exact ⟨h0, h1, h2, h.passes_mecanumMix 0, h.passes_mecanumMix 1, h.passes_mecanumMix 2,
      h.passes_mecanumMix 3, List.forall_mem_nil _⟩
  | currentMacnum i =>
    exact List.forall_mem_singleton.mpr (passes_pidCalc (h.commands.pidMacnum i) _ _)

theorem MotionInv.passes_emit {s : MotionState} (h : MotionInv s) (e : MotionEvent) :
    ∀ c ∈ motionMachine.emit s e, c.Passes := by
  cases e with
  | rcProcess buffer => exact List.forall_mem_nil _
  | measure m rxmsg => exact List.forall_mem_nil _
  | stmt => exact h.passes_rangeChecks s.stmt

/-- **Every motor command stays in range.** In every run from power-on, in any order of buffers,
feedback and statements of the loop: no clamp of `Mecanum_calc` is active, every operand of a
conversion fits `int16_t`, the wheel speeds are exact for the channels that were read, all commands
lie within 30000 and all integrals within 5000. -/
theorem commands_in_range (es : List MotionEvent) :
    (∀ value bound, .clamp value bound ∈ motionMachine.trace .powerOn es →
      limitSpeed value bound = value) ∧
    (∀ i, ((motionMachine.run .powerOn es).globals.setSpdMacnum i).toInt =
      9 * wheelMix (motionMachine.run .powerOn es).mixed i) ∧
    (∀ operand, .convert operand ∈ motionMachine.trace .powerOn es →
      -32768 ≤ operand ∧ operand ≤ 32767) ∧
    CommandsInLimits (motionMachine.run .powerOn es).globals := by
  have hinv := Machine.run_invariant motionInv_next motionInv_powerOn es
  -- what a statement shows is about the state before it, which is in the invariant
  have hpasses : ∀ c ∈ motionMachine.trace .powerOn es, c.Passes :=
    Machine.forall_mem_trace (fun s e hs => hs.passes_emit e) motionInv_next motionInv_powerOn es
  exact ⟨fun value bound hc => hpasses _ hc, hinv.setSpdMacnum, fun operand hc => hpasses _ hc,
    hinv.commands⟩

end RobomasterFirmware.Applications
