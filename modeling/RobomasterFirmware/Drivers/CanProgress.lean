import RobomasterFirmware.Drivers.CanMailbox

/-!
# Every CAN Call Returns

Without error interrupts no writer of the CAN device is left behind: as long as each thread keeps
getting its turn, the peripheral keeps finishing frames and the transmit interrupt keeps being
taken, every call of `rt_can_write` returns, in whatever order these things happen. The messages
have to pass the assertions of `_can_sendmsg`: one that does not stops its thread with the only box
in hand, and everybody waits for that box.

The measure is the work that is left: what each thread has ahead of it in `_can_int_tx`, and what is
under way in the peripheral. A step that changes anything does some of it, and a state in which
neither a thread nor the peripheral nor the interrupt can go on has none.

## Main Results
- `allValid_step`: what is on its way to the driver has been written
- `Sound.next_eq_or_work_lt`: a step changes nothing or does some of the work
- `Sound.helps`: while there is work, a thread, the peripheral or the interrupt can do some
- `canBus_drains`: rounds in which each has a turn bring all calls to their end, and no more of them
  are needed than there is work
-/

namespace RobomasterFirmware.Drivers

open RobomasterFirmware.Applications
open RobomasterFirmware.Lib

universe u

variable {T : Type u}

/-! ## The messages on their way -/

namespace CanTxPc

/-- The messages of the call that the thread is in, from the one it is at. -/
def msgs : CanTxPc 1 → List RtCanMsg
  | idle => []
  | take c => c.data :: c.rest
  | asleep c => c.data :: c.rest
  | unlink c => c.data :: c.rest
  | mark _ c => c.data :: c.rest
  | send _ c => c.data :: c.rest
  | relink _ c => c.data :: c.rest
  | retry c => c.data :: c.rest
  | wait _ c => c.data :: c.rest
  | suspended _ c => c.data :: c.rest
  | clean _ c => c.data :: c.rest
  | finish _ c => c.data :: c.rest
  | post _ c => c.data :: c.rest
  | check _ c => c.data :: c.rest

@[simp] theorem msgs_semResume (pc : CanTxPc 1) : pc.semResume.msgs = pc.msgs := by
  cases pc <;> rfl

@[simp] theorem msgs_completionResume (pc : CanTxPc 1) : pc.completionResume.msgs = pc.msgs := by
  cases pc <;> rfl

end CanTxPc

namespace CanTx

variable [DecidableEq T] {s s' : CanTx 1 T} {t : T}

/-- All messages on their way pass the assertions of `_can_sendmsg`. -/
def AllValid (s : CanTx 1 T) : Prop := ∀ t, ∀ msg ∈ (s.pc t).msgs, CanMsgValid msg

theorem AllValid.goto (h : s.AllValid) {pc : CanTxPc 1} (hpc : s'.pc = s.pc)
    (hmsgs : ∀ msg ∈ pc.msgs, CanMsgValid msg) : (s'.goto t pc).AllValid := by
  intro u
  by_cases hut : u = t
  · rw [hut, goto_pc_self]
    exact hmsgs
  · rw [goto_pc_of_ne _ _ hut, hpc]
    exact h u

theorem AllValid.semRelease (h : s.AllValid) {pc : CanTxPc 1}
    (hmsgs : ∀ msg ∈ pc.msgs, CanMsgValid msg) : (s.semRelease t pc).AllValid := by
  intro u
  rcases semRelease_pc s t pc u with hu | hu <;> rw [hu]
  · exact h.goto rfl hmsgs u
  · rw [CanTxPc.msgs_semResume]
    exact h.goto rfl hmsgs u

/-- **Step lemma** for the threads: what they have ahead of them they had before. -/
theorem AllValid.move (h : s.AllValid) {sendOk : Bool} {os : List (CanTxObs T)}
    (hmove : CanTxMove s t sendOk s' os) : s'.AllValid := by
  have ht := h t
  cases hmove with
  | stay => exact h
  -- the message stays with the thread, whether it gets a permit or sleeps
  | take c hpc =>
    rw [hpc] at ht
    refine h.goto rfl ?_
    split <;> exact ht
  -- up to the end of its turn the thread has the same messages ahead of it
  | unlink c no free hpc => exact h.goto rfl (by rwa [hpc] at ht)
  | corrupted => exact h
  | mark no c hpc => exact h.goto rfl (by rwa [hpc] at ht)
  | sendOk no c hpc => exact h.goto rfl (by rwa [hpc] at ht)
  | sendFail no c hpc => exact h.goto rfl (by rwa [hpc] at ht)
  | relink no c hpc => exact h.goto rfl (by rwa [hpc] at ht)
  | retry c hpc => exact h.semRelease (by rwa [hpc] at ht)
  | waitDone no c hpc => exact h.goto rfl (by rwa [hpc] at ht)
  | assertion => exact h
  | suspend no c hpc => exact h.goto rfl (by rwa [hpc] at ht)
  | clean no c hpc => exact h.goto rfl (by rwa [hpc] at ht)
  | finish no c hpc => exact h.goto rfl (by rwa [hpc] at ht)
  | post result c hpc => exact h.semRelease (by rwa [hpc] at ht)
  -- the call is over: nothing is left
  | checkLast c hpc => exact h.goto rfl (List.forall_mem_nil _)
  | checkNext c data rest hpc hrest =>
    -- the next message is the first of those behind the one that is done
    refine h.goto rfl fun msg hmsg => ?_
    rw [hpc] at ht
    exact ht msg (List.mem_cons_of_mem _ (hrest ▸ hmsg))
  | checkDropped result c hpc => exact h.goto rfl (List.forall_mem_nil _)

theorem AllValid.canIsr (h : s.AllValid) (no : Fin 1) (txDone : Bool) :
    (s.canIsr no txDone).AllValid := by
  unfold CanTx.canIsr completionDone
  dsimp only
  generalize (if txDone then CanSndResult.ok else CanSndResult.err) = result
  split
  · exact h
  · split
    · exact h.goto rfl (by rw [CanTxPc.msgs_completionResume]; exact h _)
    · exact h

end CanTx

/-- The messages that are written pass the assertions of `_can_sendmsg`. -/
def CanBusEvent.Valid : CanBusEvent T → Prop
  | .write _ data rest => ∀ msg ∈ data :: rest, CanMsgValid msg
  | _ => True

instance : (e : CanBusEvent T) → Decidable e.Valid
  | .write _ data rest => inferInstanceAs (Decidable (∀ msg ∈ data :: rest, CanMsgValid msg))
  | .run _ => .isTrue trivial
  | .complete _ => .isTrue trivial
  | .txIrq => .isTrue trivial
  | .sceIrq _ => .isTrue trivial

namespace CanBus

variable [DecidableEq T] {s : CanBus T}

/-- **Step lemma.** -/
theorem allValid_step (h : s.tx.AllValid) {e : CanBusEvent T} (he : e.Valid) :
    ((canBusMachine T).next s e).tx.AllValid := by
  have hmove := canBusMove_step s e
  generalize (canBusMachine T).emit s e = os at hmove
  generalize (canBusMachine T).next s e = s' at hmove ⊢
  cases hmove with
  | write t data rest =>
    change (s.tx.write t data rest).1.AllValid
    unfold CanTx.write
    -- a new call brings valid messages; a thread inside a call makes none
    split
    · exact h.goto rfl he
    · exact h
  | send hpc hsend =>
    -- whatever `sendmsg` comes to, the message stays with its thread
    cases hsend with
    | hangs hmsg => exact h
    | accepted hmsg => exact h.move (.sendOk _ _ hpc rfl)
    | occupied hrequest => exact h.move (.sendFail _ _ hpc rfl)
    | refused hstate => exact h.move (.sendFail _ _ hpc rfl)
  | thread hne hmove => exact h.move hmove
  -- the peripheral and the handlers bring no message
  | finished hrequest => exact h
  | nothing hrequest => exact h
  | report hrqcp => exact h.canIsr 0 _
  | noReport hrqcp => exact h
  | error hhcan => exact h
  | ackError hhcan => exact h.canIsr 0 false

end CanBus

/-! ## The work that is left -/

namespace CanTxPc

/-- What lies ahead of a thread in `_can_int_tx`; a message that it has not come to yet counts for a
whole turn of the loop. -/
def work : CanTxPc 1 → ℕ
  | idle => 0
  | relink _ c => 20 * c.rest.length + 15
  | retry c => 20 * c.rest.length + 14
  | take c => 20 * c.rest.length + 13
  | asleep c => 20 * c.rest.length + 12
  | unlink c => 20 * c.rest.length + 11
  | mark _ c => 20 * c.rest.length + 10
  | send _ c => 20 * c.rest.length + 9
  | wait _ c => 20 * c.rest.length + 6
  | suspended _ c => 20 * c.rest.length + 5
  | clean _ c => 20 * c.rest.length + 4
  | finish _ c => 20 * c.rest.length + 3
  | post _ c => 20 * c.rest.length + 2
  | check _ c => 20 * c.rest.length + 1

theorem work_semResume_le (pc : CanTxPc 1) : pc.semResume.work ≤ pc.work := by
  cases pc <;> simp [semResume, work]

theorem work_completionResume_le (pc : CanTxPc 1) : pc.completionResume.work ≤ pc.work := by
  cases pc <;> simp [completionResume, work]

theorem work_eq_zero {pc : CanTxPc 1} : pc.work = 0 ↔ pc = idle := by
  cases pc <;> simp [work]

end CanTxPc

/-- What is under way in the peripheral: a frame has to be finished and then reported. -/
def TxMailBox.work (mailbox : TxMailBox T) : ℕ :=
  if mailbox.request.isSome then 2 else if mailbox.rqcp then 1 else 0

namespace CanTx

variable [Fintype T]

/-- What lies ahead of all threads. -/
def work (s : CanTx 1 T) : ℕ := ∑ t, (s.pc t).work

variable [DecidableEq T] {s s' : CanTx 1 T} {t : T}

theorem goto_work (s : CanTx 1 T) (t : T) (pc : CanTxPc 1) :
    (s.goto t pc).work + (s.pc t).work = s.work + pc.work :=
  Pool.sum_update CanTxPc.work s.pc t pc

/-- A thread that has less ahead of it than before, whatever else its step changes. -/
theorem goto_work_lt {pc : CanTxPc 1} (hpc : s'.pc = s.pc) (hless : pc.work < (s.pc t).work) :
    (s'.goto t pc).work < s.work := by
  have hgoto := goto_work s' t pc
  simp only [work, hpc] at hgoto ⊢
  -- the sum changes by what `t` has done
  omega

theorem goto_work_le {pc : CanTxPc 1} (hpc : s'.pc = s.pc) (hle : pc.work ≤ (s.pc t).work) :
    (s'.goto t pc).work ≤ s.work := by
  have hgoto := goto_work s' t pc
  simp only [work, hpc] at hgoto ⊢
  omega

/-- A release may wake a thread, which then has less ahead of it too. -/
theorem semRelease_work_lt {pc : CanTxPc 1} (hless : pc.work < (s.pc t).work) :
    (s.semRelease t pc).work < s.work := by
  have hgoto : ({ s with sem := s.sem.release }.goto t pc).work < s.work := goto_work_lt rfl hless
  unfold semRelease
  cases s.sem.suspended with
  | nil => exact hgoto
  | cons w ws =>
    exact (goto_work_le rfl (CanTxPc.work_semResume_le _)).trans_lt hgoto

/-- So may a report. -/
theorem canIsr_work_le (s : CanTx 1 T) (no : Fin 1) (txDone : Bool) :
    (s.canIsr no txDone).work ≤ s.work := by
  unfold canIsr completionDone
  generalize { s.buffer no with result := if txDone then CanSndResult.ok else .err } = box
  dsimp only
  split
  · exact le_rfl
  · split
    · exact goto_work_le rfl (CanTxPc.work_completionResume_le _)
    · exact le_rfl

/-- The thread is not in a call, or waits for someone else. -/
def Blocked (s : CanTx 1 T) (t : T) : Prop :=
  s.pc t = .idle ∨ (∃ c, s.pc t = .asleep c) ∨ ∃ no c, s.pc t = .suspended no c

/-- **Step lemma** for the threads, but for `sendmsg`. -/
theorem CanTxInv.move_work (h : s.CanTxInv) (hsend : ∀ no c, s.pc t ≠ .send no c)
    {os : List (CanTxObs T)} (hmove : CanTxMove s t true s' os) :
    (s' = s ∧ s.Blocked t) ∨ s'.work < s.work := by
  cases hmove with
  -- only a thread that waits for somebody else makes no progress
  | stay hpc => exact .inl ⟨rfl, hpc⟩
  | take c hpc =>
    refine .inr (goto_work_lt rfl ?_)
    rw [hpc]
    split <;> simp [CanTxPc.work]
  | unlink c no free hpc => exact .inr (goto_work_lt rfl (by simp [hpc, CanTxPc.work]))
  | corrupted c hpc hfree => exact absurd hfree (h.freelist_ne_nil hpc)
  | mark no c hpc => exact .inr (goto_work_lt rfl (by simp [hpc, CanTxPc.work]))
  | sendOk no c hpc => exact absurd hpc (hsend no c)
  | sendFail no c hpc => exact absurd hpc (hsend no c)
  | relink no c hpc => exact .inr (goto_work_lt rfl (by simp [hpc, CanTxPc.work]))
  -- the two releases may wake a thread, which then has less ahead of it too
  | retry c hpc => exact .inr (semRelease_work_lt (by simp [hpc, CanTxPc.work]))
  | waitDone no c hpc => exact .inr (goto_work_lt rfl (by simp [hpc, CanTxPc.work]))
  -- no check fails, by the invariant of the boxes
  | assertion no c hpc hlist => exact absurd (h.suspendedList_eq_nil hpc) hlist
  | suspend no c hpc => exact .inr (goto_work_lt rfl (by simp [hpc, CanTxPc.work]))
  | clean no c hpc => exact .inr (goto_work_lt rfl (by simp [hpc, CanTxPc.work]))
  | finish no c hpc => exact .inr (goto_work_lt rfl (by simp [hpc, CanTxPc.work]))
  | post result c hpc => exact .inr (semRelease_work_lt (by simp [hpc, CanTxPc.work]))
  | checkLast c hpc => exact .inr (goto_work_lt rfl (by simp [hpc, CanTxPc.work]))
  | checkNext c data rest hpc hrest =>
    -- the message that is left has its turn of the loop ahead of it
    exact .inr (goto_work_lt rfl (by simp [hpc, hrest, CanTxPc.work]; omega))
  | checkDropped result c hpc => exact .inr (goto_work_lt rfl (by simp [hpc, CanTxPc.work]))

end CanTx

namespace CanBus

variable [Fintype T]

/-- The work that is left. -/
def work (s : CanBus T) : ℕ := s.tx.work + s.hcan.mailbox.work

end CanBus

/-- The events of a run in which no new call begins and no error interrupt comes. -/
def CanBusEvent.Drains : CanBusEvent T → Prop
  | .run _ => True
  | .complete _ => True
  | .txIrq => True
  | _ => False

instance : (e : CanBusEvent T) → Decidable e.Drains
  | .run _ => .isTrue trivial
  | .complete _ => .isTrue trivial
  | .txIrq => .isTrue trivial
  | .write _ _ _ => .isFalse id
  | .sceIrq _ => .isFalse id

theorem CanBusEvent.Drains.noError {e : CanBusEvent T} (he : e.Drains) : e.NoError := by
  cases e <;> trivial

theorem CanBusEvent.Drains.valid {e : CanBusEvent T} (he : e.Drains) : e.Valid := by
  cases e with
  | write t data rest => exact he.elim
  | _ => trivial

namespace CanBus

variable [DecidableEq T] [Fintype T] {s : CanBus T}

omit [DecidableEq T] in
/-- A finished frame that is not reported is no longer in the mailbox. -/
theorem Sound.request_eq_none (h : s.Sound) (hrqcp : s.hcan.mailbox.rqcp = true) :
    s.hcan.mailbox.request = none := by
  obtain ⟨t, c, hflight⟩ := h.exists_inFlight (.inr hrqcp)
  cases h.flight t c hflight with
  | pending _ _ hclear => rw [hrqcp] at hclear; cases hclear
  | finished _ hrequest => exact hrequest
  | reported _ hrequest => exact hrequest

/-- **Step lemma** for the threads. -/
theorem Sound.thread_work (h : s.Sound) (hvalid : s.tx.AllValid) (t : T) :
    ((s.threadStep t).1 = s ∧ s.tx.Blocked t) ∨ (s.threadStep t).1.work < s.work := by
  by_cases hsend : ∃ no c, s.tx.pc t = .send no c
  · obtain ⟨no, c, hpc⟩ := hsend
    have hgoto := CanTx.goto_work s.tx t (.wait no c)
    have hquiet := h.quiet_of_send hpc
    have hmsg : CanMsgValid c.data := hvalid t c.data (by rw [hpc]; exact List.mem_cons_self)
    have hstep := ((h.send_cases hpc).resolve_left fun hbad => hbad.1 hmsg).2
    simp only [hpc, CanTxPc.work] at hgoto
    refine .inr ?_
    -- the frame is new work for the peripheral, but less than the thread has done
    rw [hstep]
    simp only [work, TxMailBox.work, hquiet.request, hquiet.rqcp, Option.isSome_some, if_true,
      Option.isSome_none, Bool.false_eq_true, if_false]
    omega
  · have hne : ∀ no c, s.tx.pc t ≠ .send no c := fun no c hpc => hsend ⟨no, c, hpc⟩
    rw [threadStep_of_ne_send hne]
    -- elsewhere the peripheral is not touched, and the work of the threads decides
    rcases h.boxes.move_work hne (canTxMove_threadStep s.tx t true) with ⟨hsame, hblocked⟩ | hless
    · exact .inl ⟨by rw [hsame], hblocked⟩
    · exact .inr (Nat.add_lt_add_right hless _)

omit [DecidableEq T] in
/-- **Step lemma** for the peripheral. -/
theorem complete_work (s : CanBus T) (ok : Bool) :
    ((s.complete ok).1 = s ∧ s.hcan.mailbox.request = none) ∨ (s.complete ok).1.work < s.work := by
  unfold CanBus.complete
  -- a frame that is finished has only its report ahead of it
  cases hrequest : s.hcan.mailbox.request with
  | none => exact .inl ⟨rfl, rfl⟩
  | some frame => exact .inr (by simp [work, TxMailBox.work, hrequest])

/-- **Step lemma** for the transmit interrupt. -/
theorem Sound.txIrq_work (h : s.Sound) :
    (s.txIrqHandler = s ∧ s.hcan.mailbox.rqcp = false) ∨ s.txIrqHandler.work < s.work := by
  unfold CanBus.txIrqHandler
  split
  · next hrqcp =>
    -- the report is work done, and a thread it wakes has less ahead of it
    have hle := CanTx.canIsr_work_le s.tx 0 s.hcan.mailbox.txok
    refine .inr ?_
    simp only [work, TxMailBox.work, CanHandle.clearFlag, h.request_eq_none hrqcp, hrqcp,
      Option.isSome_none, Bool.false_eq_true, if_false, if_true]
    omega
  · next hrqcp => exact .inl ⟨rfl, Bool.not_eq_true _ ▸ hrqcp⟩

/-- **Step lemma.** A step changes nothing, or does some of the work. -/
theorem Sound.next_eq_or_work_lt (h : s.Sound) (hvalid : s.tx.AllValid) {e : CanBusEvent T}
    (he : e.Drains) :
    (canBusMachine T).next s e = s ∨ ((canBusMachine T).next s e).work < s.work := by
  cases e with
  | write t data rest => exact he.elim
  | run t => exact (h.thread_work hvalid t).imp_left And.left
  | complete ok => exact (complete_work s ok).imp_left And.left
  | txIrq => exact h.txIrq_work.imp_left And.left
  | sceIrq ackErr => exact he.elim

omit [DecidableEq T] in
/-- Nobody waits in vain: where all threads are blocked and the peripheral has nothing to finish and
nothing to report, no thread is in a call. -/
theorem Sound.idle_of_blocked (h : s.Sound) (hblocked : ∀ t, s.tx.Blocked t)
    (hrequest : s.hcan.mailbox.request = none) (hrqcp : s.hcan.mailbox.rqcp = false) (t : T) :
    s.tx.pc t = .idle := by
  -- a thread that waits for its frame has it in the peripheral
  have hnot : ∀ u no c, s.tx.pc u ≠ .suspended no c := by
    intro u no c hpc
    cases h.flight u c (by rw [hpc]; rfl) with
    | pending _ hsome => rw [hrequest] at hsome; cases hsome
    | finished _ _ hset => rw [hrqcp] at hset; cases hset
    | reported hat => rcases hat with hat | hat <;> rw [hpc] at hat <;> cases hat
  have hphase : ∀ u, (s.tx.pc u).phase = .outside ∨ (s.tx.pc u).phase = .asleep := by
    intro u
    rcases hblocked u with hpc | ⟨c, hpc⟩ | ⟨no, c, hpc⟩
    · exact .inl (by rw [hpc]; rfl)
    · exact .inr (by rw [hpc]; rfl)
    · exact absurd hpc (hnot u no c)
  -- so the box is free and nobody is on the way to it
  have hreserved : ∑ u, (s.tx.pool.phase u).reserved = 0 :=
    Finset.sum_eq_zero fun u _ => by
      change (s.tx.pc u).phase.reserved = 0
      rcases hphase u with hu | hu <;> rw [hu] <;> rfl
  have hfree : 0 < s.tx.pool.free.length := by
    rcases h.boxes.accounted.covered 0 with hmem | ⟨u, hu⟩
    · exact List.length_pos_of_mem hmem
    · change (s.tx.pc u).phase = _ at hu
      rcases hphase u with hu' | hu' <;> rw [hu] at hu' <;> cases hu'
  -- a free box means a free permit, and with one nobody sleeps
  have hawake := h.boxes.accounted.not_asleep (t := t) (by omega)
  rcases hblocked t with hpc | ⟨c, hpc⟩ | ⟨no, c, hpc⟩
  · exact hpc
  · exact absurd (congrArg CanTxPc.phase hpc) hawake
  · exact absurd hpc (hnot t no c)

omit [DecidableEq T] in
theorem work_eq_zero (hidle : ∀ t, s.tx.pc t = .idle) (hrequest : s.hcan.mailbox.request = none)
    (hrqcp : s.hcan.mailbox.rqcp = false) : s.work = 0 := by
  have hthreads : s.tx.work = 0 :=
    Finset.sum_eq_zero fun t _ => CanTxPc.work_eq_zero.mpr (hidle t)
  simp [work, TxMailBox.work, hthreads, hrequest, hrqcp]

/-- While there is work, a thread, the peripheral or the interrupt can do some of it. -/
theorem Sound.helps (h : s.Sound) (hvalid : s.tx.AllValid) (hwork : 0 < s.work) :
    (∃ t, (s.threadStep t).1.work < s.work) ∨ (∀ ok, (s.complete ok).1.work < s.work) ∨
      s.txIrqHandler.work < s.work := by
  -- if nobody could do any work, all threads would be blocked and the peripheral empty
  by_contra hnone
  simp only [not_or, not_exists, not_forall] at hnone
  obtain ⟨hthreads, ⟨ok, hcomplete⟩, hirq⟩ := hnone
  have hblocked : ∀ t, s.tx.Blocked t := fun t =>
    ((h.thread_work hvalid t).resolve_right (hthreads t)).2
  have hrequest := ((complete_work s ok).resolve_right hcomplete).2
  have hrqcp := (h.txIrq_work.resolve_right hirq).2
  have hzero := work_eq_zero (h.idle_of_blocked hblocked hrequest hrqcp) hrequest hrqcp
  omega

end CanBus

/-- A round in which every thread, the peripheral and the interrupt have a turn, in any order and
any number of times. -/
structure CanRound (r : List (CanBusEvent T)) : Prop where
  drains : ∀ e ∈ r, e.Drains
  run : ∀ t, .run t ∈ r
  complete : ∃ ok, .complete ok ∈ r
  txIrq : .txIrq ∈ r

/-- **Run lemma.** After every run without error interrupts in which all messages written pass the
assertions of `_can_sendmsg`, as many rounds as there is work left bring every call to its end: no
writer waits for a permit, a box or a completion for ever. -/
theorem canBus_drains [DecidableEq T] [Fintype T] {es : List (CanBusEvent T)}
    (hes : ∀ e ∈ es, e.NoError) (hvalid : ∀ e ∈ es, e.Valid)
    {rounds : List (List (CanBusEvent T))} (hrounds : ∀ r ∈ rounds, CanRound r)
    (hlen : ((canBusMachine T).run (.opened T) es).work ≤ rounds.length) (t : T) :
    ((canBusMachine T).run (.opened T) (es ++ rounds.flatten)).tx.pc t = .idle := by
  -- the messages on their way are those that were written
  have hstart : ((canBusMachine T).run (.opened T) es).tx.AllValid :=
    Machine.run_of_along (I := fun s : CanBus T => s.tx.AllValid)
      (fun _ _ h he => CanBus.allValid_step h he) (fun _ => List.forall_mem_nil _)
      (Machine.along_of_forall hvalid _)
  have hzero : ((canBusMachine T).run ((canBusMachine T).run (.opened T) es) rounds.flatten).work =
      0 := by
    refine Machine.run_flatten_eq_zero (I := fun s : CanBus T => s.Sound ∧ s.tx.AllValid)
      (Q := CanBusEvent.Drains)
      (fun s e h he => ⟨(h.1.step he.noError).1, CanBus.allValid_step h.2 he.valid⟩)
      (fun s e h he => h.1.next_eq_or_work_lt h.2 he)
      (fun r hr => (hrounds r hr).drains) (fun r hr s h hwork => ?_)
      ⟨CanBus.sound_run hes, hstart⟩ hlen
    -- whoever can go on has a turn in the round
    rcases h.1.helps h.2 hwork with ⟨u, hu⟩ | hcomplete | hirq
    · exact ⟨.run u, (hrounds r hr).run u, hu⟩
    · obtain ⟨ok, hok⟩ := (hrounds r hr).complete
      exact ⟨.complete ok, hok, hcomplete ok⟩
    · exact ⟨.txIrq, (hrounds r hr).txIrq, hirq⟩
  rw [Machine.run_append]
  -- no work at all means no work for `t`, which is idle then
  have hthreads := (Nat.add_eq_zero_iff.mp hzero).1
  exact CanTxPc.work_eq_zero.mp (Finset.sum_eq_zero_iff.mp hthreads t (Finset.mem_univ t))

/-- Two threads share the box; a frame of the one fails on the bus. -/
theorem canBus_drains_two :
    ((canBusMachine Bool).run (.opened Bool)
      ([.write false .zero [.zero], .write true .zero [.zero], .run true] ++
        (List.replicate 80
          [.complete false, .txIrq, .run true, .complete true, .run false]).flatten)).tx.pc true =
      .idle := by
  refine canBus_drains (by decide) (by decide) (fun r hr => ?_) (by decide) true
  rw [List.eq_of_mem_replicate hr]
  exact ⟨by decide, fun t => by cases t <;> simp, ⟨true, by simp⟩, by simp⟩

end RobomasterFirmware.Drivers
