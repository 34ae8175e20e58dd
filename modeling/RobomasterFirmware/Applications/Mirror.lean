import RobomasterFirmware.Algorithm.PidMirror
import RobomasterFirmware.Applications.CommandRange

/-!
# Mirrored Driving

A two-run property of the wheel part of the motion loop in exact arithmetic: a run that sees the
negated sticks and the negated wheel speeds computes the negated wheel speed set points and the
negated currents. The relation between the two runs is `Mirrored`; it is kept by every statement of
the loop, whatever limit is active.

## Main Results
- `Mirrored.execStmt`: the step lemma
- `wheels_mirrored`: the commands of the two runs
-/

namespace RobomasterFirmware.Applications

open RobomasterFirmware.Algorithm
open RobomasterFirmware.Lib

/-! ## The system -/

/-- The statements of the loop that drive the wheels. -/
def wheelPart : List MotionStmt :=
  [.rcch 0, .rcch 1, .rcch 2, .mecanumCalc, .currentMacnum 0, .currentMacnum 1, .currentMacnum 2,
    .currentMacnum 3]

/-- What an iteration reads: the remote control, and the feedback of the four wheels. -/
structure WheelInput where
  rc : RcInfo
  motoMacnum : Fin 4 → MotoMeasure

/-- What an iteration computes. -/
structure WheelCommands where
  setSpdMacnum : Fin 4 → Int16
  currentMacnum : Fin 4 → Int16

/-- The wheel part of the loop over the inputs of its iterations. -/
def wheelMachine : Machine (Globals ℚ ℚ) WheelInput WheelCommands where
  step g w :=
    let g := wheelPart.foldl execStmt { g with rc := w.rc, motoMacnum := w.motoMacnum }
    (g, [{ setSpdMacnum := g.setSpdMacnum, currentMacnum := g.currentMacnum }])

/-! ## The rest of the loop -/

/-- The statement reads or writes what belongs to the wheels. -/
def MotionStmt.drivesWheels : MotionStmt → Bool
  | .voltageYaw | .voltagePit => false
  | _ => true

/-- The two states agree in what belongs to the wheels. -/
structure SameWheels (g h : Globals ℚ ℚ) : Prop where
  rc : g.rc = h.rc
  motoMacnum : g.motoMacnum = h.motoMacnum
  rcch : g.rcch = h.rcch
  pidMacnum : g.pidMacnum = h.pidMacnum
  setSpdMacnum : g.setSpdMacnum = h.setSpdMacnum
  currentMacnum : g.currentMacnum = h.currentMacnum

variable {g h : Globals ℚ ℚ}

theorem SameWheels.execStmt (hgh : SameWheels g h) (st : MotionStmt) :
    SameWheels (execStmt g st) (execStmt h st) := by
  obtain ⟨hrc, hmoto, hrcch, hpid, hset, hcurrent⟩ := hgh
  have hwheel (i : Fin 4) : wheelControl g i = wheelControl h i := by
    unfold wheelControl
    rw [hmoto, hpid, hset]
  -- a statement reads what belongs to the wheels, or writes nothing of it
  cases st with
  | rcch k =>
    exact ⟨hrc, hmoto, by simp only [Applications.execStmt, hrc, hrcch], hpid, hset, hcurrent⟩
  | voltageYaw => exact ⟨hrc, hmoto, hrcch, hpid, hset, hcurrent⟩
  | voltagePit => exact ⟨hrc, hmoto, hrcch, hpid, hset, hcurrent⟩
  | mecanumCalc =>
    exact ⟨hrc, hmoto, hrcch, hpid, by simp only [Applications.execStmt, hrcch], hcurrent⟩
  | currentMacnum i =>
    exact ⟨hrc, hmoto, hrcch, by simp only [Applications.execStmt, hwheel, hpid], hset,
      by simp only [Applications.execStmt, hwheel, hcurrent]⟩

/-- The other statements leave the wheels alone. -/
theorem SameWheels.execStmt_left (hgh : SameWheels g h) {st : MotionStmt}
    (hst : ¬ st.drivesWheels = true) : SameWheels (Applications.execStmt g st) h := by
  cases st with
  | voltageYaw => exact { hgh with }
  | voltagePit => exact { hgh with }
  | rcch k => exact absurd rfl hst
  | mecanumCalc => exact absurd rfl hst
  | currentMacnum i => exact absurd rfl hst

/-- A list of statements does to the wheels what its wheel part does. -/
theorem SameWheels.foldl_execStmt (hgh : SameWheels g h) (sts : List MotionStmt) :
    SameWheels (sts.foldl Applications.execStmt g)
      ((sts.filter MotionStmt.drivesWheels).foldl Applications.execStmt h) := by
  -- statement by statement: the gimbal ones are left out on one side
  induction sts generalizing g h with
  | nil => exact hgh
  | cons st sts ih =>
    by_cases hst : st.drivesWheels = true
    · rw [List.filter_cons_of_pos hst]
      exact ih (hgh.execStmt st)
    · rw [List.filter_cons_of_neg hst]
      exact ih (hgh.execStmt_left hst)

/-- An iteration of the whole loop does to the wheels what its wheel part does. -/
theorem sameWheels_motionIteration (g : Globals ℚ ℚ) :
    SameWheels (motionIteration g) (wheelPart.foldl execStmt g) :=
  SameWheels.foldl_execStmt ⟨rfl, rfl, rfl, rfl, rfl, rfl⟩ loopBody

/-! ## Two runs -/

/-- The second input shows the negated sticks and wheel speeds of the first, whose sticks are
between the limits of the remote control. Everything else may differ. -/
structure NegatedInput (w w' : WheelInput) : Prop where
  stick (k : Fin 3) : (stick w'.rc k).toInt = -(Applications.stick w.rc k).toInt
  inRange (k : Fin 3) : InStickRange (Applications.stick w.rc k)
  speedRpm (i : Fin 4) : (w'.motoMacnum i).speedRpm.toInt = -(w.motoMacnum i).speedRpm.toInt

/-- The commands are negated. -/
structure NegatedCommands (c c' : WheelCommands) : Prop where
  setSpdMacnum (i : Fin 4) : (c'.setSpdMacnum i).toInt = -(c.setSpdMacnum i).toInt
  currentMacnum (i : Fin 4) : (c'.currentMacnum i).toInt = -(c.currentMacnum i).toInt

/-- The wheel part of the second state is the mirror image of that of the first, which is within
its limits. -/
structure Mirrored (g h : Globals ℚ ℚ) : Prop where
  input : NegatedInput ⟨g.rc, g.motoMacnum⟩ ⟨h.rc, h.motoMacnum⟩
  rcch (k : Fin 3) : h.rcch k = -g.rcch k
  rcch_le (k : Fin 3) : |g.rcch k| ≤ 5940
  limits (i : Fin 4) : PidInLimits (g.pidMacnum i)
  pidMacnum (i : Fin 4) : h.pidMacnum i = (g.pidMacnum i).mirror
  setSpdMacnum (i : Fin 4) : (h.setSpdMacnum i).toInt = -(g.setSpdMacnum i).toInt
  currentMacnum (i : Fin 4) : (h.currentMacnum i).toInt = -(g.currentMacnum i).toInt

/-! ## Single statements -/

theorem limitSpeed_neg (v : ℚ) {bound : ℤ} (hbound : 0 ≤ bound) :
    limitSpeed (-v) bound = -limitSpeed v bound := by
  rw [limitSpeed_eq_saturate _ hbound, limitSpeed_eq_saturate _ hbound,
    saturate_neg (by exact_mod_cast hbound)]

theorem mecanumMix_neg (vx vy omega : ℚ) (i : Fin 4) :
    mecanumMix (-vx) (-vy) (-omega) i = -mecanumMix vx vy omega i := by
  -- the mix is linear in the three speeds
  fin_cases i <;> simp [mecanumMix] <;> ring

/-- Three speeds within a bound mix to at most three times the bound. -/
theorem abs_mecanumMix_le {vx vy omega m : ℚ} (hx : |vx| ≤ m) (hy : |vy| ≤ m) (ho : |omega| ≤ m)
    (i : Fin 4) : |mecanumMix vx vy omega i| ≤ 3 * m := by
  rw [abs_le] at hx hy ho ⊢
  fin_cases i <;> simp [mecanumMix] <;> constructor <;> linarith

/-- `Mecanum_calc` on negated speeds, as long as no limit is active. -/
theorem toInt_mecanumCalc_neg {vx vy omega : ℚ} (hx : |vx| ≤ 5940) (hy : |vy| ≤ 5940)
    (ho : |omega| ≤ 5940) (eachMaxSpd : Int32) (i : Fin 4) :
    (mecanumCalc (-vx) (-vy) (-omega) eachMaxSpd i).toInt =
      -(mecanumCalc vx vy omega eachMaxSpd i).toInt := by
  -- a clamp is odd anyway, but the mix of unclamped speeds has the bound
  have hlimit {v : ℚ} {bound : ℤ} (hv : |v| ≤ 5940) (hbound : 5940 ≤ bound) :
      limitSpeed v bound = v :=
    limitSpeed_of_abs_le (hv.trans (by exact_mod_cast hbound))
  have hmix := abs_mecanumMix_le hx hy ho i
  unfold mecanumCalc
  rw [limitSpeed_neg _ (by decide), limitSpeed_neg _ (by decide), limitSpeed_neg _ (by decide),
    mecanumMix_neg, hlimit hx (by decide), hlimit hy (by decide), hlimit ho (by decide)]
  -- 17820 fits `int16_t`, and the conversion is odd there
  exact toInt_toInt16_neg (m := 17820) (by norm_num) (hmix.trans (by norm_num))

/-- Reading a stick. -/
theorem scaleStick_neg {ch ch' : Int16} (hch : ch'.toInt = -ch.toInt) :
    (scaleStick ch' : ℚ) = -scaleStick ch := by
  rw [scaleStick_rat, scaleStick_rat, hch]
  push_cast
  ring

/-! ## The relation between the runs -/

/-- A wheel controller in mirrored states. -/
theorem Mirrored.wheelControl (hgh : Mirrored g h) (i : Fin 4) :
    wheelControl h i = ((wheelControl g i).1.mirror, -(wheelControl g i).2) := by
  have hspeed : (h.motoMacnum i).speedRpm.toInt = -(g.motoMacnum i).speedRpm.toInt :=
    hgh.input.speedRpm i
  unfold Applications.wheelControl
  rw [hspeed, hgh.setSpdMacnum i, hgh.pidMacnum i, ofInt_rat, ofInt_rat, ofInt_rat, ofInt_rat,
    Int.cast_neg, Int.cast_neg]
  -- negated inputs and a mirrored controller
  exact pidCalc_mirror _ _ _

theorem Mirrored.execStmt_rcch (hgh : Mirrored g h) (k : Fin 3) :
    Mirrored (execStmt g (.rcch k)) (execStmt h (.rcch k)) where
  input := hgh.input
  rcch j := by
    -- only the channel that is read changes, in both runs
    by_cases hjk : j = k
    · subst hjk
      simp only [execStmt, Function.update_self]
      exact scaleStick_neg (hgh.input.stick j)
    · simp only [execStmt, Function.update_of_ne hjk, hgh.rcch j]
  rcch_le := by
    refine (Function.forall_update_iff g.rcch fun _ v => |v| ≤ 5940).mpr
      ⟨?_, fun j _ => hgh.rcch_le j⟩
    -- 9 times 660
    rw [scaleStick_rat]
    exact abs_stick_le (hgh.input.inRange k) le_rfl
  limits := hgh.limits
  pidMacnum := hgh.pidMacnum
  setSpdMacnum := hgh.setSpdMacnum
  currentMacnum := hgh.currentMacnum

theorem Mirrored.execStmt_mecanumCalc (hgh : Mirrored g h) :
    Mirrored (execStmt g .mecanumCalc) (execStmt h .mecanumCalc) :=
  { hgh with
    setSpdMacnum := fun i => by
      simp only [execStmt, narrow_rat, hgh.rcch]
      exact toInt_mecanumCalc_neg (hgh.rcch_le 0) (hgh.rcch_le 1) (hgh.rcch_le 2) _ i }

theorem Mirrored.execStmt_currentMacnum (hgh : Mirrored g h) (i : Fin 4) :
    Mirrored (execStmt g (.currentMacnum i)) (execStmt h (.currentMacnum i)) where
  input := hgh.input
  rcch := hgh.rcch
  rcch_le := hgh.rcch_le
  limits := (Function.forall_update_iff g.pidMacnum fun _ => PidInLimits).mpr
    ⟨(hgh.limits i).pidCalc _ _, fun j _ => hgh.limits j⟩
  pidMacnum j := by
    simp only [execStmt, hgh.wheelControl i]
    -- the other wheels keep controller and current
    by_cases hji : j = i
    · subst hji
      simp only [Function.update_self]
    · simp only [Function.update_of_ne hji, hgh.pidMacnum j]
  setSpdMacnum := hgh.setSpdMacnum
  currentMacnum j := by
    simp only [execStmt, hgh.wheelControl i]
    by_cases hji : j = i
    · subst hji
      simp only [Function.update_self]
      -- 30000 is the limit of the output
      exact toInt_toInt16_neg (by norm_num) ((hgh.limits j).abs_pidCalc_le _ _)
    · simp only [Function.update_of_ne hji, hgh.currentMacnum j]

/-- **Step lemma.** Every statement of the loop keeps the states mirrored. -/
theorem Mirrored.execStmt (hgh : Mirrored g h) (st : MotionStmt) :
    Mirrored (execStmt g st) (execStmt h st) := by
  cases st with
  | rcch k => exact hgh.execStmt_rcch k
  | voltageYaw => exact { hgh with }
  | voltagePit => exact { hgh with }
  | mecanumCalc => exact hgh.execStmt_mecanumCalc
  | currentMacnum i => exact hgh.execStmt_currentMacnum i

theorem Mirrored.foldl_execStmt (hgh : Mirrored g h) (sts : List MotionStmt) :
    Mirrored (sts.foldl Applications.execStmt g) (sts.foldl Applications.execStmt h) :=
  foldl_execStmt_related (fun _ _ st hst => hst.execStmt st) hgh sts

/-- An iteration on negated inputs. -/
theorem Mirrored.next (hgh : Mirrored g h) {w w' : WheelInput} (hw : NegatedInput w w') :
    Mirrored (wheelMachine.next g w) (wheelMachine.next h w') :=
  Mirrored.foldl_execStmt (g := { g with rc := w.rc, motoMacnum := w.motoMacnum })
    (h := { h with rc := w'.rc, motoMacnum := w'.motoMacnum }) { hgh with input := hw } wheelPart

theorem mirrored_powerOn : Mirrored (powerOn : Globals ℚ ℚ) powerOn where
  input := ⟨fun k => by fin_cases k <;> rfl, inStickRange_stick motionInv_powerOn.rc, fun _ => rfl⟩
  rcch _ := neg_zero.symm
  rcch_le _ := abs_zero.trans_le (by norm_num)
  limits := motionInv_powerOn.commands.pidMacnum
  pidMacnum _ := rfl
  setSpdMacnum _ := rfl
  currentMacnum _ := rfl

/-- **Mirrored driving.** If in every iteration the second run sees the negated sticks and wheel
speeds of the first, then in every iteration it computes the negated set points and currents. -/
theorem wheels_mirrored (ws ws' : List WheelInput) (hws : List.Forall₂ NegatedInput ws ws') :
    List.Forall₂ NegatedCommands (wheelMachine.trace powerOn ws)
      (wheelMachine.trace powerOn ws') := by
  -- the states stay mirrored, and each iteration shows the commands of its state
  refine (Machine.trace_related (fun _ _ _ _ hgh hw => hgh.next hw) ?_ mirrored_powerOn hws).2
  intro g h w w' hgh hw
  have hnext := hgh.next hw
  exact .cons ⟨hnext.setSpdMacnum, hnext.currentMacnum⟩ .nil

/-- All wheels at one speed, and two sticks pushed. -/
def drive (ch2 ch3 speed : Int16) : WheelInput where
  rc := { RcInfo.zero with ch2 := ch2, ch3 := ch3 }
  motoMacnum _ := { MotoMeasure.zero with speedRpm := speed }

theorem negatedInput_drive : NegatedInput (drive 660 (-31) 250) (drive (-660) 31 (-250)) where
  stick := by decide
  inRange := by decide
  speedRpm _ := rfl

/-- Two iterations, forwards and backwards. -/
theorem wheels_mirrored_drive :
    List.Forall₂ NegatedCommands
      (wheelMachine.trace powerOn [drive 660 (-31) 250, drive 660 (-31) 250])
      (wheelMachine.trace powerOn [drive (-660) 31 (-250), drive (-660) 31 (-250)]) :=
  wheels_mirrored _ _ (.cons negatedInput_drive (.cons negatedInput_drive .nil))

end RobomasterFirmware.Applications
