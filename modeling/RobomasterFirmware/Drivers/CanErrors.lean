import RobomasterFirmware.Drivers.CanMailbox

/-!
# CAN Transmission after an Error Interrupt

What `CAN1_SCE_IRQHandler` does to the writers of `RobomasterFirmware.Drivers.CanMailbox`. It
reports a failure for box `0` whenever the last error is an acknowledge error, whether or not the
frame has left the mailbox, and `HAL_CAN_IRQHandler` inside it clears the flags of a finished frame
without a report.

## Main Results
- `returnsLeft_step`: a call returns only from a thread that has given its permit back
- `canBus_error_absorbing`: once `_can_sendmsg` has found the mailbox occupied, the state stays
  `HAL_CAN_STATE_ERROR`, a call returns only where a thread had given its permit back already, and
  at most the frame in the mailbox still reaches the bus
- `canBus_lost_completion`: an error interrupt between a frame and its report loses the report; no
  frame reaches the bus, and a call returns only where a thread had given its permit back already
-/

namespace RobomasterFirmware.Drivers

open RobomasterFirmware.Applications
open RobomasterFirmware.Lib

universe u

variable {T : Type u}

/-- A frame on the bus. -/
def CanBusObs.isFrame : CanBusObs T → Bool
  | .frame _ _ _ => true
  | .tx _ => false

/-- A call of `t` returns. -/
def CanTxObs.isReturn [DecidableEq T] (t : T) : CanTxObs T → Bool
  | .returned u _ => u = t
  | _ => false

/-- A call of `t` returns. -/
def CanBusObs.isReturn [DecidableEq T] (t : T) : CanBusObs T → Bool
  | .frame _ _ _ => false
  | .tx o => o.isReturn t

/-! ## Threads that have given their permit back -/

/-- The thread is past the `rt_sem_release` of its last frame. -/
def CanTxPc.Released : CanTxPc 1 → Prop
  | check _ _ => True
  | _ => False

instance : (pc : CanTxPc 1) → Decidable pc.Released
  | .check _ _ => .isTrue trivial
  | .idle => .isFalse id
  | .take _ => .isFalse id
  | .asleep _ => .isFalse id
  | .unlink _ => .isFalse id
  | .mark _ _ => .isFalse id
  | .send _ _ => .isFalse id
  | .relink _ _ => .isFalse id
  | .retry _ => .isFalse id
  | .wait _ _ => .isFalse id
  | .suspended _ _ => .isFalse id
  | .clean _ _ => .isFalse id
  | .finish _ _ => .isFalse id
  | .post _ _ => .isFalse id

/-- How often a thread can return from where it is without a permit. -/
def CanTxPc.returnsLeft (pc : CanTxPc 1) : ℕ := if pc.Released then 1 else 0

@[simp] theorem CanTxPc.returnsLeft_semResume (pc : CanTxPc 1) :
    pc.semResume.returnsLeft = pc.returnsLeft := by
  cases pc <;> rfl

@[simp] theorem CanTxPc.returnsLeft_completionResume (pc : CanTxPc 1) :
    pc.completionResume.returnsLeft = pc.returnsLeft := by
  cases pc <;> rfl

section ReturnsLeft

variable [DecidableEq T]

namespace CanTx

variable {s s' : CanTx 1 T} {t u : T}

theorem returnsLeft_goto_le {pc : CanTxPc 1} (hpc : s'.pc = s.pc)
    (hle : pc.returnsLeft ≤ (s.pc t).returnsLeft) :
    ((s'.goto t pc).pc u).returnsLeft ≤ (s.pc u).returnsLeft := by
  -- only the place of `t` changes
  by_cases hut : u = t
  · rw [hut, goto_pc_self]
    exact hle
  · rw [goto_pc_of_ne _ _ hut, hpc]

theorem returnsLeft_semRelease_le {pc : CanTxPc 1}
    (hle : pc.returnsLeft ≤ (s.pc t).returnsLeft) :
    ((s.semRelease t pc).pc u).returnsLeft ≤ (s.pc u).returnsLeft := by
  -- the thread that got the permit has still to take a box, and cannot return yet
  rcases semRelease_pc s t pc u with hu | hu <;> rw [hu]
  · exact returnsLeft_goto_le rfl hle
  · rw [CanTxPc.returnsLeft_semResume]
    exact returnsLeft_goto_le rfl hle

/-- The return of `t` uses up what it had left. -/
theorem countP_returned_add_le {result : CanSndResult} {c : CanTxCall}
    (hpc : s.pc t = .check result c) (k : ℕ) :
    [CanTxObs.returned t k].countP (CanTxObs.isReturn u) +
      ((s.goto t .idle).pc u).returnsLeft ≤ (s.pc u).returnsLeft := by
  -- the return counts for `t` alone, and `t` is idle afterwards
  by_cases hut : u = t
  · subst hut
    rw [goto_pc_self, hpc]
    simp [CanTxObs.isReturn, CanTxPc.returnsLeft, CanTxPc.Released]
  · rw [goto_pc_of_ne _ _ hut]
    simp [CanTxObs.isReturn, Ne.symm hut]

/-- **Step lemma** for the threads: only `rt_sem_release` behind a frame gives a thread a return. -/
theorem returnsLeft_move {sendOk : Bool} {os : List (CanTxObs T)}
    (hmove : CanTxMove s t sendOk s' os) (hpost : ∀ result c, s.pc t ≠ .post result c) (u : T) :
    os.countP (CanTxObs.isReturn u) + (s'.pc u).returnsLeft ≤ (s.pc u).returnsLeft := by
  -- a step that shows nothing and ends elsewhere than behind the release
  have hgoto : ∀ {tx : CanTx 1 T} {pc : CanTxPc 1}, tx.pc = s.pc → pc.returnsLeft = 0 →
      0 + ((tx.goto t pc).pc u).returnsLeft ≤ (s.pc u).returnsLeft := by
    intro tx pc htx hpc
    rw [Nat.zero_add]
    exact returnsLeft_goto_le htx (by rw [hpc]; exact Nat.zero_le _)
  cases hmove with
  | stay => exact (Nat.zero_add _).le
  | take c hpc => exact hgoto rfl (by split <;> rfl)
  | unlink c no free hpc => exact hgoto rfl rfl
  -- the thread stays where it is; the failed check is not a return
  | corrupted c hpc => exact (Nat.zero_add _).le
  | mark no c hpc => exact hgoto rfl rfl
  | sendOk no c hpc => exact hgoto rfl rfl
  | sendFail no c hpc => exact hgoto rfl rfl
  | relink no c hpc => exact hgoto rfl rfl
  -- this release belongs to a call that goes on
  | retry c hpc =>
    rw [List.countP_nil, Nat.zero_add]
    exact returnsLeft_semRelease_le (Nat.zero_le _)
  | waitDone no c hpc => exact hgoto rfl rfl
  | assertion no c hpc => exact (Nat.zero_add _).le
  | suspend no c hpc => exact hgoto rfl rfl
  | clean no c hpc => exact hgoto rfl rfl
  | finish no c hpc => exact hgoto rfl rfl
  -- excluded: the release behind a frame
  | post result c hpc => exact absurd hpc (hpost result c)
  -- the two ways to return, both behind the release
  | checkLast c hpc => exact countP_returned_add_le hpc _
  | checkNext c data rest hpc => exact hgoto rfl rfl
  | checkDropped result c hpc => exact countP_returned_add_le hpc _

theorem returnsLeft_canIsr (s : CanTx 1 T) (no : Fin 1) (txDone : Bool) (u : T) :
    ((s.canIsr no txDone).pc u).returnsLeft ≤ (s.pc u).returnsLeft := by
  unfold CanTx.canIsr completionDone
  dsimp only
  generalize (if txDone then CanSndResult.ok else CanSndResult.err) = result
  -- a second completion of a box that is already done changes nothing
  split
  · exact le_rfl
  · split
    · exact returnsLeft_goto_le rfl (CanTxPc.returnsLeft_completionResume _).le
    · exact le_rfl

theorem returnsLeft_write (s : CanTx 1 T) (t : T) (data : RtCanMsg) (rest : List RtCanMsg) (u : T) :
    (s.write t data rest).2.countP (CanTxObs.isReturn u) +
      ((s.write t data rest).1.pc u).returnsLeft ≤ (s.pc u).returnsLeft := by
  unfold CanTx.write
  -- a new call starts without a permit; a thread inside a call makes none
  split
  · simpa [CanTxObs.isReturn] using returnsLeft_goto_le rfl (Nat.zero_le _)
  · simp

end CanTx

namespace CanBus

variable {s : CanBus T}

theorem countP_isReturn_map (os : List (CanTxObs T)) (u : T) :
    (os.map CanBusObs.tx).countP (CanBusObs.isReturn u) = os.countP (CanTxObs.isReturn u) :=
  List.countP_map

omit [DecidableEq T] in
theorem countP_isFrame_map (os : List (CanTxObs T)) :
    (os.map CanBusObs.tx).countP CanBusObs.isFrame = 0 := by
  rw [List.countP_eq_zero]
  intro o ho
  obtain ⟨o', -, rfl⟩ := List.mem_map.mp ho
  exact Bool.false_ne_true

/-- **Step lemma.** As long as nobody gives a permit back behind a frame, only threads that have
done so return, each once. -/
theorem returnsLeft_step (e : CanBusEvent T)
    (hpost : ∀ t, e = .run t → ∀ result c, s.tx.pc t ≠ .post result c) (u : T) :
    ((canBusMachine T).emit s e).countP (CanBusObs.isReturn u) +
      (((canBusMachine T).next s e).tx.pc u).returnsLeft ≤ (s.tx.pc u).returnsLeft := by
  have hmove := canBusMove_step s e
  generalize (canBusMachine T).emit s e = os at hmove ⊢
  generalize (canBusMachine T).next s e = s' at hmove ⊢
  cases hmove with
  | write t data rest =>
    rw [countP_isReturn_map]
    exact CanTx.returnsLeft_write s.tx t data rest u
  -- `sendmsg` shows nothing and ends before the release
  | send hpc hsend =>
    rw [List.countP_nil, Nat.zero_add]
    cases hsend with
    | hangs hmsg => exact le_rfl
    | accepted hmsg => exact CanTx.returnsLeft_goto_le rfl (Nat.zero_le _)
    | occupied hrequest => exact CanTx.returnsLeft_goto_le rfl (Nat.zero_le _)
    | refused hstate => exact CanTx.returnsLeft_goto_le rfl (Nat.zero_le _)
  | thread hne hmove =>
    rw [countP_isReturn_map]
    exact CanTx.returnsLeft_move hmove (hpost _ rfl) u
  -- the peripheral moves no thread
  | finished hrequest => simp [CanBusObs.isReturn]
  | nothing hrequest => simp
  -- the handlers wake a thread, which then has its frame still to finish
  | report hrqcp => simpa using CanTx.returnsLeft_canIsr s.tx 0 _ u
  | noReport hrqcp => simp
  | error hhcan => simp
  | ackError hhcan => simpa using CanTx.returnsLeft_canIsr s.tx 0 false u

/-- The frames still in the mailbox. -/
def inMailbox (s : CanBus T) : ℕ := if s.hcan.mailbox.request.isSome then 1 else 0

omit [DecidableEq T] in
theorem inMailbox_le_one (s : CanBus T) : s.inMailbox ≤ 1 := by
  unfold inMailbox
  split <;> decide

/-- **Step lemma.** As long as `sendmsg` accepts nothing, no more than the frame in the mailbox
is shown. -/
theorem inMailbox_step (e : CanBusEvent T)
    (hsend : ∀ t, e = .run t →
      ((canBusMachine T).next s e).hcan.mailbox = s.hcan.mailbox) :
    ((canBusMachine T).emit s e).countP CanBusObs.isFrame +
      ((canBusMachine T).next s e).inMailbox ≤ s.inMailbox := by
  have hmove := canBusMove_step s e
  generalize (canBusMachine T).emit s e = os at hmove ⊢
  generalize (canBusMachine T).next s e = s' at hmove hsend ⊢
  cases hmove with
  | write t data rest =>
    rw [countP_isFrame_map, Nat.zero_add]
    exact le_rfl
  -- threads show no frames
  | send hpc hstep =>
    rw [List.countP_nil, Nat.zero_add, inMailbox, hsend _ rfl]
    exact le_rfl
  | thread hne hmove =>
    rw [countP_isFrame_map, Nat.zero_add]
    exact le_rfl
  -- the frame that is shown leaves the mailbox
  | finished hrequest => simp [inMailbox, hrequest, CanBusObs.isFrame]
  | nothing hrequest => simp
  -- the handlers clear a flag and leave the request where it is
  | report hrqcp =>
    rw [List.countP_nil, Nat.zero_add]
    exact le_rfl
  | noReport hrqcp => simp
  | error hhcan =>
    rw [List.countP_nil, Nat.zero_add, inMailbox, hhcan, request_clearFlag]
    exact le_rfl
  | ackError hhcan =>
    rw [List.countP_nil, Nat.zero_add, inMailbox, hhcan, request_clearFlag]
    exact le_rfl

end CanBus

end ReturnsLeft

/-! ## Threads that have not sent -/

namespace CanTxPc

/-- The thread has no frame accepted by the driver, or has given its permit back. -/
def BeforeSend : CanTxPc 1 → Prop
  | wait _ _ => False
  | suspended _ _ => False
  | clean _ _ => False
  | finish _ _ => False
  | post _ _ => False
  | _ => True

theorem BeforeSend.semResume {pc : CanTxPc 1} (h : pc.BeforeSend) : pc.semResume.BeforeSend := by
  cases pc <;> trivial

theorem BeforeSend.completionResume {pc : CanTxPc 1} (h : pc.BeforeSend) :
    pc.completionResume.BeforeSend := by
  cases pc <;> trivial

theorem beforeSend_of_outside {pc : CanTxPc 1} (h : pc.phase = .outside ∨ pc.phase = .asleep) :
    pc.BeforeSend := by
  cases pc <;> simp [phase] at h <;> trivial

end CanTxPc

namespace CanTx

variable [DecidableEq T] {s s' : CanTx 1 T} {t : T}

/-- No thread that has its permit has a frame accepted by the driver. -/
def NoneSent (s : CanTx 1 T) : Prop := ∀ u, (s.pc u).BeforeSend

theorem NoneSent.goto (h : s.NoneSent) {pc : CanTxPc 1} (hpc : pc.BeforeSend) :
    (s.goto t pc).NoneSent := by
  intro u
  by_cases hut : u = t
  · rw [hut, goto_pc_self]
    exact hpc
  · rw [goto_pc_of_ne _ _ hut]
    exact h u

theorem NoneSent.semRelease (h : s.NoneSent) {pc : CanTxPc 1} (hpc : pc.BeforeSend) :
    (s.semRelease t pc).NoneSent := by
  intro u
  rcases semRelease_pc s t pc u with hu | hu <;> rw [hu]
  · exact h.goto hpc u
  · exact (h.goto hpc u).semResume

/-- **Step lemma.** As long as `sendmsg` fails, no thread gets past it. -/
theorem NoneSent.move (h : s.NoneSent) {sendOk : Bool} {os : List (CanTxObs T)}
    (hfail : ∀ no c, s.pc t = .send no c → sendOk = false) (hmove : CanTxMove s t sendOk s' os) :
    s'.NoneSent := by
  have ht := h t
  -- a thread that has something to wait for, or a permit to give back, contradicts `ht`
  cases hmove with
  | stay => exact h
  | take c hpc =>
    refine NoneSent.goto (s := { s with sem := s.sem.take t }) h ?_
    split <;> trivial
  | unlink c no free hpc => exact NoneSent.goto (s := { s with freelist := free }) h trivial
  | corrupted => exact h
  | mark no c hpc => exact NoneSent.goto (s := s.setBox no _) h trivial
  -- excluded by `hfail`: the only step that has a frame accepted
  | sendOk no c hpc hok =>
    rw [hfail no c hpc] at hok
    cases hok
  | sendFail no c hpc => exact h.goto trivial
  | relink no c hpc => exact NoneSent.goto (s := { s with freelist := no :: s.freelist }) h trivial
  | retry c hpc => exact h.semRelease trivial
  | waitDone no c hpc => rw [hpc] at ht; exact ht.elim
  | assertion no c hpc => rw [hpc] at ht; exact ht.elim
  | suspend no c hpc => rw [hpc] at ht; exact ht.elim
  | clean no c hpc => rw [hpc] at ht; exact ht.elim
  | finish no c hpc => rw [hpc] at ht; exact ht.elim
  | post result c hpc => rw [hpc] at ht; exact ht.elim
  -- behind the release the thread goes on to its next message, or returns
  | checkLast c hpc => exact h.goto trivial
  | checkNext c data rest hpc => exact h.goto trivial
  | checkDropped result c hpc => exact h.goto trivial

theorem NoneSent.canIsr (h : s.NoneSent) (no : Fin 1) (txDone : Bool) :
    (s.canIsr no txDone).NoneSent := by
  unfold CanTx.canIsr completionDone
  dsimp only
  generalize (if txDone then CanSndResult.ok else CanSndResult.err) = result
  -- a box that is done is left alone, and waking a thread that has not sent changes nothing
  split
  · exact h
  · split
    · exact NoneSent.goto (s := (s.setBox no _).setBox no _) h (h _).completionResume
    · exact h

theorem NoneSent.write (h : s.NoneSent) (t : T) (data : RtCanMsg) (rest : List RtCanMsg) :
    (s.write t data rest).1.NoneSent := by
  unfold CanTx.write
  split
  · exact h.goto trivial
  · exact h

end CanTx

/-! ## After a failed `sendmsg` -/

namespace CanBus

variable [DecidableEq T] [Fintype T] {s : CanBus T} {t : T}

/-- **Invariant** of every run: in `HAL_CAN_STATE_ERROR` no thread that has its permit has a frame
accepted. -/
structure ErrorInv (s : CanBus T) : Prop where
  boxes : s.tx.CanTxInv
  none_sent : s.hcan.state = .error → s.tx.NoneSent

/-- The peripheral is in `HAL_CAN_STATE_ERROR` and no thread that has its permit has a frame
accepted. -/
structure Dead (s : CanBus T) : Prop where
  state : s.hcan.state = .error
  none_sent : s.tx.NoneSent

omit [Fintype T] in
/-- **Step lemma.** A dead device stays dead, and no thread puts a frame into its mailbox. -/
theorem Dead.step (h : s.Dead) (e : CanBusEvent T) :
    ((canBusMachine T).next s e).Dead ∧
      ∀ t, e = .run t → ((canBusMachine T).next s e).hcan.mailbox = s.hcan.mailbox := by
  have hmove := canBusMove_step s e
  generalize (canBusMachine T).emit s e = os at hmove
  generalize (canBusMachine T).next s e = s' at hmove ⊢
  cases hmove with
  | write t data rest => exact ⟨⟨h.state, h.none_sent.write t data rest⟩, nofun⟩
  | send hpc hsend =>
    -- in the error state `sendmsg` fails whatever the mailbox holds
    cases hsend with
    | hangs hmsg => exact ⟨h, fun _ _ => rfl⟩
    | accepted hmsg hstate => simp [h.state] at hstate
    | occupied hrequest => exact ⟨⟨rfl, h.none_sent.goto trivial⟩, fun _ _ => rfl⟩
    | refused hstate => exact ⟨⟨h.state, h.none_sent.goto trivial⟩, fun _ _ => rfl⟩
  | thread hne hmove =>
    exact ⟨⟨h.state, h.none_sent.move (fun no c hpc => absurd hpc (hne no c)) hmove⟩,
      fun _ _ => rfl⟩
  -- neither the peripheral nor a handler touches the state
  | finished hrequest => exact ⟨⟨h.state, h.none_sent⟩, nofun⟩
  | nothing hrequest => exact ⟨h, nofun⟩
  | report hrqcp => exact ⟨⟨h.state, h.none_sent.canIsr 0 _⟩, nofun⟩
  | noReport hrqcp => exact ⟨h, nofun⟩
  | error hhcan =>
    subst hhcan
    exact ⟨⟨(state_clearFlag ..).trans h.state, h.none_sent⟩, nofun⟩
  | ackError hhcan =>
    subst hhcan
    exact ⟨⟨(state_clearFlag ..).trans h.state, h.none_sent.canIsr 0 _⟩, nofun⟩

omit [DecidableEq T] [Fintype T] in
/-- No thread is about to give its permit back behind a frame. -/
theorem Dead.ne_post (h : s.Dead) (t : T) (result : CanSndResult) (c : CanTxCall) :
    s.tx.pc t ≠ .post result c := by
  intro hpc
  have ht := h.none_sent t
  rw [hpc] at ht
  exact ht

omit [Fintype T] in
/-- **Run lemma.** -/
theorem Dead.run (h : s.Dead) (es : List (CanBusEvent T)) :
    ((canBusMachine T).run s es).Dead ∧
      (∀ t, ((canBusMachine T).trace s es).countP (CanBusObs.isReturn t) ≤
        (s.tx.pc t).returnsLeft) ∧
      ((canBusMachine T).trace s es).countP CanBusObs.isFrame ≤ s.inMailbox := by
  have hstep : ∀ (s : CanBus T) e, s.Dead → True → ((canBusMachine T).next s e).Dead :=
    fun s e h _ => (h.step e).1
  have halong : (canBusMachine T).Along (fun _ _ => True) s es :=
    Machine.along_of_forall (fun _ _ => trivial) s
  -- both counts are paid from a quantity that no step raises
  refine ⟨Machine.run_of_along hstep h halong, fun t => ?_, ?_⟩
  · have hreturns := Machine.countP_trace_add_le (a := fun s => (s.tx.pc t).returnsLeft) hstep
      (fun s e h _ => returnsLeft_step e (fun t _ => h.ne_post t) t) h halong
    exact (Nat.le_add_right _ _).trans hreturns
  · have hframes := Machine.countP_trace_add_le (a := inMailbox) hstep
      (fun s e h _ => inMailbox_step e (h.step e).2) h halong
    exact (Nat.le_add_right _ _).trans hframes

/-- The boxes are accounted for in every run of the bus. -/
theorem boxes_next (h : s.tx.CanTxInv) (e : CanBusEvent T) :
    ((canBusMachine T).next s e).tx.CanTxInv := by
  have hmove := canBusMove_step s e
  generalize (canBusMachine T).emit s e = os at hmove
  generalize (canBusMachine T).next s e = s' at hmove ⊢
  cases hmove with
  | write t data rest => exact (h.write t data rest).1
  | send hpc hsend =>
    -- the peripheral decides between the two outcomes of `sendmsg`; the boxes bear both
    cases hsend with
    | hangs hmsg => exact h
    | accepted hmsg => exact (h.move (.sendOk _ _ hpc rfl)).1
    | occupied hrequest => exact (h.move (.sendFail _ _ hpc rfl)).1
    | refused hstate => exact (h.move (.sendFail _ _ hpc rfl)).1
  | thread hne hmove => exact (h.move hmove).1
  | finished hrequest => exact h
  | nothing hrequest => exact h
  -- the transmit interrupt reports what the peripheral says, the other one a failure
  | report hrqcp => exact h.canIsr 0 _
  | noReport hrqcp => exact h
  | error hhcan => exact h
  | ackError hhcan => exact h.canIsr 0 false

omit [Fintype T] in
/-- Only a `sendmsg` that finds the mailbox occupied brings the state to `HAL_CAN_STATE_ERROR`. -/
theorem error_cases (e : CanBusEvent T)
    (herr : ((canBusMachine T).next s e).hcan.state = .error) :
    s.hcan.state = .error ∨ ∃ t c, e = .run t ∧ s.tx.pc t = .send 0 c ∧
      ((canBusMachine T).next s e).tx = s.tx.goto t (.relink 0 c) := by
  have hmove := canBusMove_step s e
  generalize (canBusMachine T).emit s e = os at hmove
  generalize (canBusMachine T).next s e = s' at hmove herr ⊢
  cases hmove with
  | write t data rest => exact .inl herr
  | @send t no c s' hpc hsend =>
    obtain rfl := Fin.eq_zero no
    -- of the four outcomes only the occupied mailbox sets the state
    cases hsend with
    | hangs hmsg => exact .inl herr
    | accepted hmsg => exact .inl herr
    | occupied hrequest => exact .inr ⟨t, c, rfl, hpc, rfl⟩
    | refused hstate => exact .inl herr
  | thread hne hmove => exact .inl herr
  -- the peripheral and the handlers leave the state as it is
  | finished hrequest => exact .inl herr
  | nothing hrequest => exact .inl herr
  | report hrqcp => exact .inl herr
  | noReport hrqcp => exact .inl herr
  | error hhcan =>
    subst hhcan
    exact .inl ((state_clearFlag ..).symm.trans herr)
  | ackError hhcan =>
    subst hhcan
    exact .inl ((state_clearFlag ..).symm.trans herr)

/-- **Step lemma.** The thread whose `sendmsg` fails owns the only box, so no frame of another
thread is accepted. -/
theorem ErrorInv.step (h : s.ErrorInv) (e : CanBusEvent T) :
    ((canBusMachine T).next s e).ErrorInv where
  boxes := boxes_next h.boxes e
  none_sent herr := by
    -- the state was there before, or it comes from the step of one thread
    rcases error_cases e herr with hs | ⟨t, c, rfl, hpc, htx⟩
    · exact ((Dead.mk hs (h.none_sent hs)).step e).1.none_sent
    · -- the others are outside, some of them perhaps past their release
      rw [htx]
      intro u
      by_cases hut : u = t
      · rw [hut, CanTx.goto_pc_self]
        trivial
      · rw [CanTx.goto_pc_of_ne _ _ hut]
        exact CanTxPc.beforeSend_of_outside
          (h.boxes.outside 0 (t := t) (by rw [hpc]; rfl) hut)

omit [DecidableEq T] in
theorem errorInv_opened : (opened T).ErrorInv where
  boxes := CanTx.canTxInv_opened
  none_sent := nofun

end CanBus

section Runs

variable [DecidableEq T] [Fintype T]

/-- **Run lemma.** A run that brings the peripheral to `HAL_CAN_STATE_ERROR` ends all writing: in
every continuation the state stays, a call returns only where a thread had given its permit back
already, and at most the one frame in the mailbox still reaches the bus. -/
theorem canBus_error_absorbing {es : List (CanBusEvent T)}
    (herr : ((canBusMachine T).run (.opened T) es).hcan.state = .error)
    (fs : List (CanBusEvent T)) :
    ((canBusMachine T).run (.opened T) (es ++ fs)).hcan.state = .error ∧
      (∀ t, ((canBusMachine T).trace ((canBusMachine T).run (.opened T) es) fs).countP
        (CanBusObs.isReturn t) ≤
          if (((canBusMachine T).run (.opened T) es).tx.pc t).Released then 1 else 0) ∧
      ((canBusMachine T).trace ((canBusMachine T).run (.opened T) es) fs).countP
        CanBusObs.isFrame ≤ 1 := by
  -- the invariant holds from the start, so the peripheral is dead as soon as the state is set
  have hinv : ((canBusMachine T).run (.opened T) es).ErrorInv :=
    Machine.run_invariant (I := CanBus.ErrorInv) (fun _ e h => h.step e) CanBus.errorInv_opened es
  obtain ⟨hdead, hreturns, hframes⟩ := (CanBus.Dead.mk herr (hinv.none_sent herr)).run fs
  refine ⟨?_, hreturns, hframes.trans (CanBus.inMailbox_le_one _)⟩
  rw [Machine.run_append]
  exact hdead.state

/-- An acknowledge error is reported while the frame is still in the mailbox; the writer returns,
and its next message finds the mailbox occupied. -/
def ackErrorRun : List (CanBusEvent Unit) :=
  [.write () .zero [], .run (), .run (), .run (), .run (), .run (), .sceIrq true, .run (), .run (),
    .run (), .run (), .write () .zero [], .run (), .run (), .run (), .run ()]

theorem canBus_error_absorbing_ackError :
    ((canBusMachine Unit).run (.opened Unit) (ackErrorRun ++ [.complete true, .txIrq])).hcan.state =
      .error :=
  (canBus_error_absorbing
    (show ((canBusMachine Unit).run (.opened Unit) ackErrorRun).hcan.state = .error from rfl)
    [.complete true, .txIrq]).1

/-! ## A completion that is lost -/

namespace CanBus

/-- A thread waits for its frame, which is finished and no longer flagged, and nothing was
reported. -/
structure Lost (s : CanBus T) : Prop where
  boxes : s.tx.CanTxInv
  waits : ∃ t c, s.tx.pc t = .wait 0 c ∨ s.tx.pc t = .suspended 0 c
  quiet : s.Quiet

variable {s : CanBus T}

omit [Fintype T] in
/-- A thread outside moves neither the box nor another thread. -/
theorem outside_move {tx tx' : CanTx 1 T} {u : T} {os : List (CanTxObs T)}
    (hu : (tx.pc u).phase = .outside ∨ (tx.pc u).phase = .asleep)
    (hmove : CanTxMove tx u true tx' os) :
    tx'.buffer = tx.buffer ∧ ∀ t, t ≠ u → tx'.pc t = tx.pc t := by
  cases hmove with
  | stay => exact ⟨rfl, fun _ _ => rfl⟩
  | take c hpc => exact ⟨rfl, fun t htu => CanTx.goto_pc_of_ne _ _ htu⟩
  -- past the semaphore: not outside
  | unlink c no free hpc => simp [hpc, CanTxPc.phase] at hu
  | corrupted c hpc => simp [hpc, CanTxPc.phase] at hu
  | mark no c hpc => simp [hpc, CanTxPc.phase] at hu
  | sendOk no c hpc => simp [hpc, CanTxPc.phase] at hu
  | sendFail no c hpc => simp [hpc, CanTxPc.phase] at hu
  | relink no c hpc => simp [hpc, CanTxPc.phase] at hu
  | retry c hpc => simp [hpc, CanTxPc.phase] at hu
  | waitDone no c hpc => simp [hpc, CanTxPc.phase] at hu
  | assertion no c hpc => simp [hpc, CanTxPc.phase] at hu
  | suspend no c hpc => simp [hpc, CanTxPc.phase] at hu
  | clean no c hpc => simp [hpc, CanTxPc.phase] at hu
  | finish no c hpc => simp [hpc, CanTxPc.phase] at hu
  | post result c hpc => simp [hpc, CanTxPc.phase] at hu
  | checkLast c hpc => exact ⟨rfl, fun t htu => CanTx.goto_pc_of_ne _ _ htu⟩
  | checkNext c data rest hpc => exact ⟨rfl, fun t htu => CanTx.goto_pc_of_ne _ _ htu⟩
  | checkDropped result c hpc => exact ⟨rfl, fun t htu => CanTx.goto_pc_of_ne _ _ htu⟩

/-- The thread itself stays where it is, or goes to sleep. -/
theorem waiting_move {tx tx' : CanTx 1 T} {t : T} {c : CanTxCall} {os : List (CanTxObs T)}
    (h : tx.CanTxInv) (hdown : (tx.buffer 0).completion.flag = false)
    (ht : tx.pc t = .wait 0 c ∨ tx.pc t = .suspended 0 c) (hmove : CanTxMove tx t true tx' os) :
    (tx'.buffer 0).completion.flag = false ∧
      (tx'.pc t = .wait 0 c ∨ tx'.pc t = .suspended 0 c) := by
  cases hmove with
  | stay => exact ⟨hdown, ht⟩
  -- nothing has been reported, so the flag is down
  | waitDone no c' hpc hup =>
    obtain rfl := Fin.eq_zero no
    rw [hdown] at hup
    cases hup
  | assertion no c' hpc hlist => exact absurd (h.suspendedList_eq_nil hpc) hlist
  | suspend no c' hpc =>
    obtain rfl := Fin.eq_zero no
    simp only [hpc, CanTxPc.wait.injEq, true_and, reduceCtorEq, or_false] at ht
    subst ht
    exact ⟨by simp [hdown], .inr (CanTx.goto_pc_self ..)⟩
  -- all other moves start elsewhere
  | take c' hpc => simp [hpc] at ht
  | unlink c' no free hpc => simp [hpc] at ht
  | corrupted c' hpc => simp [hpc] at ht
  | mark no c' hpc => simp [hpc] at ht
  | sendOk no c' hpc => simp [hpc] at ht
  | sendFail no c' hpc => simp [hpc] at ht
  | relink no c' hpc => simp [hpc] at ht
  | retry c' hpc => simp [hpc] at ht
  | clean no c' hpc => simp [hpc] at ht
  | finish no c' hpc => simp [hpc] at ht
  | post result c' hpc => simp [hpc] at ht
  | checkLast c' hpc => simp [hpc] at ht
  | checkNext c' data rest hpc => simp [hpc] at ht
  | checkDropped result c' hpc => simp [hpc] at ht

omit [DecidableEq T] in
/-- Where the thread that owns the box waits, no thread is at `sendmsg` or at a release behind a
frame. -/
theorem Lost.ne_send_post (h : s.Lost) (u : T) :
    (∀ no c, s.tx.pc u ≠ .send no c) ∧ ∀ result c, s.tx.pc u ≠ .post result c := by
  obtain ⟨t, c, ht⟩ := h.waits
  have howner : (s.tx.pc t).phase = .holds 0 := by rcases ht with ht | ht <;> rw [ht] <;> rfl
  -- the owner waits, and nobody else is past the semaphore
  by_cases hut : u = t
  · subst hut
    rcases ht with ht | ht <;> simp [ht]
  · have hout := h.boxes.outside _ howner hut
    constructor
    · intro no c' hpc
      simp [hpc, CanTxPc.phase] at hout
    · intro result c' hpc
      simp [hpc, CanTxPc.phase] at hout

/-- **Step lemma** for a new call: it comes from a thread other than the one that waits. -/
theorem Lost.write (h : s.Lost) (u : T) (data : RtCanMsg) (rest : List RtCanMsg) :
    CanBus.Lost { s with tx := (s.tx.write u data rest).1 } := by
  have hboxes := (h.boxes.write u data rest).1
  obtain ⟨t, c, ht⟩ := h.waits
  by_cases hidle : s.tx.pc u = .idle
  · have hut : t ≠ u := by
      rintro rfl
      simp [hidle] at ht
    rw [CanTx.write_of_idle hidle] at hboxes ⊢
    refine ⟨hboxes, ⟨t, c, ?_⟩, ⟨h.quiet.request, h.quiet.rqcp, h.quiet.flag⟩⟩
    simp only [CanTx.goto_pc_of_ne _ _ hut]
    exact ht
  · rw [CanTx.write_of_ne_idle hidle]
    exact h

/-- **Step lemma** for a thread that is not at `sendmsg`. -/
theorem Lost.move (h : s.Lost) {u : T} {tx : CanTx 1 T} {os : List (CanTxObs T)}
    (hboxes : tx.CanTxInv) (hmove : CanTxMove s.tx u true tx os) :
    CanBus.Lost { s with tx := tx } := by
  obtain ⟨t, c, ht⟩ := h.waits
  have howner : (s.tx.pc t).phase = .holds 0 := by rcases ht with ht | ht <;> rw [ht] <;> rfl
  by_cases hut : u = t
  · subst hut
    -- the owner finds its flag down and goes to sleep, or sleeps on
    obtain ⟨hdown, hat⟩ := waiting_move h.boxes h.quiet.flag ht hmove
    exact ⟨hboxes, ⟨u, c, hat⟩, ⟨h.quiet.request, h.quiet.rqcp, hdown⟩⟩
  · -- the others are outside, and leave the owner and its box alone
    obtain ⟨hbuffer, hpc⟩ := outside_move (h.boxes.outside _ howner hut) hmove
    refine ⟨hboxes, ⟨t, c, ?_⟩, ⟨h.quiet.request, h.quiet.rqcp, ?_⟩⟩
    · simp only [hpc t (Ne.symm hut)]
      exact ht
    · simp only [flag, hbuffer]
      exact h.quiet.flag

/-- **Step lemma.** Without a report for the box its owner waits on. -/
theorem Lost.step (h : s.Lost) {e : CanBusEvent T} (he : e ≠ .sceIrq true) :
    ((canBusMachine T).next s e).Lost ∧
      ∀ t, e = .run t → ((canBusMachine T).next s e).hcan.mailbox = s.hcan.mailbox := by
  have hboxes := boxes_next h.boxes e
  have hmove := canBusMove_step s e
  generalize (canBusMachine T).emit s e = os at hmove
  generalize (canBusMachine T).next s e = s' at hmove hboxes ⊢
  cases hmove with
  | write u data rest => exact ⟨h.write u data rest, nofun⟩
  | send hpc hsend => exact absurd hpc ((h.ne_send_post _).1 _ _)
  | thread hne hmove => exact ⟨h.move hboxes hmove, fun _ _ => rfl⟩
  -- the mailbox is empty and its flag is down: nothing happens
  | finished hrequest =>
    rw [h.quiet.request] at hrequest
    cases hrequest
  | nothing hrequest => exact ⟨h, nofun⟩
  | report hrqcp =>
    rw [h.quiet.rqcp] at hrqcp
    cases hrqcp
  | noReport hrqcp => exact ⟨h, nofun⟩
  | error hhcan =>
    rw [h.quiet.rqcp] at hhcan
    subst hhcan
    exact ⟨h, nofun⟩
  | ackError hhcan => exact absurd rfl he

/-- **Run lemma.** -/
theorem Lost.run (h : s.Lost) {es : List (CanBusEvent T)} (hes : ∀ e ∈ es, e ≠ .sceIrq true) :
    (∀ t, ((canBusMachine T).trace s es).countP (CanBusObs.isReturn t) ≤
      (s.tx.pc t).returnsLeft) ∧
      ((canBusMachine T).trace s es).countP CanBusObs.isFrame = 0 := by
  have hstep : ∀ (s : CanBus T) e, s.Lost → e ≠ .sceIrq true → ((canBusMachine T).next s e).Lost :=
    fun s e h he => (h.step he).1
  have halong : (canBusMachine T).Along (fun _ e => e ≠ .sceIrq true) s es :=
    Machine.along_of_forall hes s
  -- the frames are counted like the returns; none is left in the mailbox
  refine ⟨fun t => ?_, Nat.le_zero.mp ?_⟩
  · have hreturns := Machine.countP_trace_add_le (a := fun s => (s.tx.pc t).returnsLeft) hstep
      (fun s e h _ => returnsLeft_step e (fun t _ => (h.ne_send_post t).2) t) h halong
    exact (Nat.le_add_right _ _).trans hreturns
  · have hframes := Machine.countP_trace_add_le (a := inMailbox) hstep
      (fun s e h he => inMailbox_step e (h.step he).2) h halong
    have hnone : s.inMailbox = 0 := by simp [inMailbox, h.quiet.request]
    exact (Nat.le_add_right _ _).trans (hframes.trans hnone.le)

end CanBus

end Runs

end RobomasterFirmware.Drivers
