import RobomasterFirmware.Applications.MyType
import RobomasterFirmware.Lib.Machine
import RobomasterFirmware.Lib.Pool

/-!
# CAN Transmission

`components/drivers/can/can.c` and `components/drivers/src/completion.c`: the send boxes of a CAN
device. A writer takes a permit of `tx_fifo->sem` and a box from `freelist`, hands the frame to the
driver, waits until the interrupt has completed the box, links the box again and releases the
permit. Any number of threads write, the interrupt reports whatever it likes about any box, and the
driver accepts or refuses a frame as it likes; a step is one critical section, one call, or what a
thread does between two of them. A thread that hangs in a call takes no further step.

Not modelled: the status counters, `_can_int_tx_priv` (`privmode` is off), and sizes that are no
multiple of a message. A call with size zero returns before it reaches any of this.

## Main Results
- `semTake_pool`, `semRelease_pool`, `canIsr_pool`: the send boxes are a resource pool
- `CanTxInv.move`, `CanTxInv.canIsr`: every step keeps the invariant
- `canTx_safe`: in every run no box is lost or used twice, `freelist` is never empty when it is
  read, and `rt_completion_wait` never finds another waiter
-/

namespace RobomasterFirmware.Drivers

open RobomasterFirmware.Applications
open RobomasterFirmware.Lib

universe u

variable {T : Type u} {n : ℕ}

/-! ## Data -/

/-- `RT_CAN_SND_RESULT_OK`, `RT_CAN_SND_RESULT_ERR` and `RT_CAN_SND_RESULT_WAIT`. -/
inductive CanSndResult where
  | ok
  | err
  | wait
  deriving DecidableEq

/-- `struct rt_completion`; the flag says whether it is `RT_COMPLETED`. -/
structure RtCompletion (T : Type u) where
  flag : Bool
  suspendedList : List T

/-- `struct rt_can_sndbxinx_list`. -/
structure CanSndBox (T : Type u) where
  completion : RtCompletion T
  result : CanSndResult

/-- What `_can_int_tx` still has to send: the messages sent so far, `*data`, and those behind. -/
structure CanTxCall where
  sent : ℕ
  data : RtCanMsg
  rest : List RtCanMsg
  deriving DecidableEq

/-- Where a thread is in `_can_int_tx`. -/
inductive CanTxPc (n : ℕ) where
  /-- not in `rt_can_write` -/
  | idle
  /-- `rt_sem_take(&(tx_fifo->sem), RT_WAITING_FOREVER)` -/
  | take (c : CanTxCall)
  /-- suspended in `rt_sem_take` -/
  | asleep (c : CanTxCall)
  /-- the critical section that unlinks a box -/
  | unlink (c : CanTxCall)
  /-- `tx_tosnd->result = RT_CAN_SND_RESULT_WAIT` -/
  | mark (no : Fin n) (c : CanTxCall)
  /-- `can->ops->sendmsg(can, data, no)` -/
  | send (no : Fin n) (c : CanTxCall)
  /-- send failed: `rt_list_insert_after(&tx_fifo->freelist, &tx_tosnd->list)` -/
  | relink (no : Fin n) (c : CanTxCall)
  /-- send failed: `rt_sem_release(&(tx_fifo->sem))` and `continue` -/
  | retry (c : CanTxCall)
  /-- `rt_completion_wait(&(tx_tosnd->completion), RT_WAITING_FOREVER)` -/
  | wait (no : Fin n) (c : CanTxCall)
  /-- suspended in `rt_completion_wait` -/
  | suspended (no : Fin n) (c : CanTxCall)
  /-- woken in `rt_completion_wait`: `completion->flag = RT_UNCOMPLETED` -/
  | clean (no : Fin n) (c : CanTxCall)
  /-- the critical section that reads `result` and links the box -/
  | finish (no : Fin n) (c : CanTxCall)
  /-- `rt_sem_release(&(tx_fifo->sem))` -/
  | post (result : CanSndResult) (c : CanTxCall)
  /-- `if (result == RT_CAN_SND_RESULT_OK)` and what follows it -/
  | check (result : CanSndResult) (c : CanTxCall)
  deriving DecidableEq

namespace CanTxPc

/-- A thread resumed by `rt_sem_release`. -/
def semResume : CanTxPc n → CanTxPc n
  | asleep c => unlink c
  | pc => pc

/-- A thread resumed by `rt_completion_done`. -/
def completionResume : CanTxPc n → CanTxPc n
  | suspended no c => clean no c
  | pc => pc

/-- What a thread does with the boxes. -/
def phase : CanTxPc n → Phase (Fin n)
  | idle => .outside
  | take _ => .outside
  | asleep _ => .asleep
  | unlink _ => .permit
  | mark no _ => .holds no
  | send no _ => .holds no
  | relink no _ => .holds no
  | retry _ => .returned
  | wait no _ => .holds no
  | suspended no _ => .holds no
  | clean no _ => .holds no
  | finish no _ => .holds no
  | post _ _ => .returned
  | check _ _ => .outside

theorem phase_semResume (pc : CanTxPc n) : pc.semResume.phase = pc.phase.wake := by
  cases pc <;> rfl

theorem phase_completionResume (pc : CanTxPc n) : pc.completionResume.phase = pc.phase := by
  cases pc <;> rfl

end CanTxPc

/-- `struct rt_can_tx_fifo` with `n` send boxes, and where each thread is. -/
structure CanTx (n : ℕ) (T : Type u) where
  freelist : List (Fin n)
  sem : Semaphore T
  buffer : Fin n → CanSndBox T
  pc : T → CanTxPc n

/-- What a run shows. -/
inductive CanTxObs (T : Type u) where
  /-- `t` calls `rt_can_write` with these messages. -/
  | called (t : T) (msgs : List RtCanMsg)
  /-- The call of `t` returns this number of messages. -/
  | returned (t : T) (sent : ℕ)
  /-- `RT_ASSERT(rt_list_isempty(&(completion->suspended_list)))` fails. -/
  | assertion
  /-- `tx_fifo->freelist.next` is read although the list is empty. -/
  | corrupted

namespace CanTx

/-- What `rt_can_open` sets up: all boxes are free. -/
def opened (n : ℕ) (T : Type u) : CanTx n T where
  freelist := List.finRange n
  sem := ⟨n, []⟩
  buffer _ := ⟨⟨false, []⟩, .ok⟩
  pc _ := .idle

/-- The send boxes as a pool. -/
def pool (s : CanTx n T) : Pool T (Fin n) := ⟨s.freelist, s.sem, fun t => (s.pc t).phase⟩

/-- The box `no` changes. -/
def setBox (s : CanTx n T) (no : Fin n) (box : CanSndBox T) : CanTx n T :=
  { s with buffer := Function.update s.buffer no box }

/-! ## The threads: `_can_int_tx` -/

variable [DecidableEq T]

/-- `t` goes on at `pc`. -/
def goto (s : CanTx n T) (t : T) (pc : CanTxPc n) : CanTx n T :=
  { s with pc := Function.update s.pc t pc }

/-- `rt_sem_take` by `t`. -/
def semTake (s : CanTx n T) (t : T) (c : CanTxCall) : CanTx n T :=
  { s with sem := s.sem.take t }.goto t (if 0 < s.sem.value then .unlink c else .asleep c)

/-- `rt_sem_release` by `t`, which goes on at `pc`. -/
def semRelease (s : CanTx n T) (t : T) (pc : CanTxPc n) : CanTx n T :=
  let s' := { s with sem := s.sem.release }.goto t pc
  -- the first waiter gets the permit that is given back
  match s.sem.suspended with
  | w :: _ => s'.goto w (s'.pc w).semResume
  | [] => s'

/-- `rt_completion_wait` by `t` up to the place where it may be suspended. -/
def completionWait (s : CanTx n T) (t : T) (no : Fin n) (c : CanTxCall) :
    CanTx n T × List (CanTxObs T) :=
  let box := s.buffer no
  -- `if (completion->flag != RT_COMPLETED)`: the frame has been reported already
  if box.completion.flag then
    ((s.setBox no { box with completion.flag := false }).goto t (.finish no c), [])
  else if box.completion.suspendedList ≠ [] then (s, [.assertion])
  else ((s.setBox no { box with completion.suspendedList := [t] }).goto t (.suspended no c), [])

/-- The end of one turn of the loop, after `rt_sem_release`: the comparison of `result`. -/
def finishMsg (s : CanTx n T) (t : T) (result : CanSndResult) (c : CanTxCall) :
    CanTx n T × List (CanTxObs T) :=
  match result, c.rest with
  | .ok, [] => (s.goto t .idle, [.returned t (c.sent + 1)])
  | .ok, data :: rest => (s.goto t (.take ⟨c.sent + 1, data, rest⟩), [])
  -- the first message that was not sent ends the loop
  | _, _ => (s.goto t .idle, [.returned t c.sent])

/-- One step of `t`; `sendOk` is what `sendmsg` answers, where it is called. -/
def threadStep (s : CanTx n T) (t : T) (sendOk : Bool) : CanTx n T × List (CanTxObs T) :=
  match s.pc t with
  | .idle => (s, [])
  | .take c => (s.semTake t c, [])
  | .asleep _ => (s, [])
  | .unlink c =>
    match s.freelist with
    | no :: free => ({ s with freelist := free }.goto t (.mark no c), [])
    | [] => (s, [.corrupted])
  | .mark no c => ((s.setBox no { s.buffer no with result := .wait }).goto t (.send no c), [])
  | .send no c => (s.goto t (if sendOk then .wait no c else .relink no c), [])
  -- a box that was not used goes back to the head of the list
  | .relink no c => ({ s with freelist := no :: s.freelist }.goto t (.retry c), [])
  | .retry c => (s.semRelease t (.take c), [])
  | .wait no c => s.completionWait t no c
  | .suspended _ _ => (s, [])
  | .clean no c =>
    ((s.setBox no { s.buffer no with completion.flag := false }).goto t (.finish no c), [])
  | .finish no c =>
    ({ s with freelist := s.freelist ++ [no] }.goto t (.post (s.buffer no).result c), [])
  | .post result c => (s.semRelease t (.check result c), [])
  | .check result c => s.finishMsg t result c

/-- `rt_can_write` is called by a thread that is not in it. -/
def write (s : CanTx n T) (t : T) (data : RtCanMsg) (rest : List RtCanMsg) :
    CanTx n T × List (CanTxObs T) :=
  match s.pc t with
  | .idle => (s.goto t (.take ⟨0, data, rest⟩), [.called t (data :: rest)])
  | _ => (s, [])

theorem write_of_idle {s : CanTx n T} {t : T} (h : s.pc t = .idle) (data : RtCanMsg)
    (rest : List RtCanMsg) :
    s.write t data rest = (s.goto t (.take ⟨0, data, rest⟩), [.called t (data :: rest)]) := by
  simp only [write, h]

theorem write_of_ne_idle {s : CanTx n T} {t : T} (h : s.pc t ≠ .idle) (data : RtCanMsg)
    (rest : List RtCanMsg) : s.write t data rest = (s, []) := by
  unfold write
  split
  · next hpc => exact absurd hpc h
  · rfl

/-! ## The interrupt: `RT_CAN_EVENT_TX_DONE` and `RT_CAN_EVENT_TX_FAIL` -/

/-- `rt_completion_done` on the box `no`. -/
def completionDone (s : CanTx n T) (no : Fin n) : CanTx n T :=
  let box := s.buffer no
  -- `if (completion->flag == RT_COMPLETED) return`
  if box.completion.flag then s
  else
    match box.completion.suspendedList with
    | t :: ts =>
      (s.setBox no { box with completion := ⟨true, ts⟩ }).goto t (s.pc t).completionResume
    | [] => s.setBox no { box with completion.flag := true }

/-- `rt_hw_can_isr` for the two transmit events. -/
def canIsr (s : CanTx n T) (no : Fin n) (txDone : Bool) : CanTx n T :=
  (s.setBox no { s.buffer no with result := if txDone then .ok else .err }).completionDone no

end CanTx

/-- A thread calls `rt_can_write` or makes a step, or the interrupt reports on a box. -/
inductive CanTxEvent (n : ℕ) (T : Type u) where
  | write (t : T) (data : RtCanMsg) (rest : List RtCanMsg)
  | run (t : T) (sendOk : Bool)
  | isr (no : Fin n) (txDone : Bool)

/-- The threads and the interrupt, interleaved. -/
def canTxMachine (n : ℕ) (T : Type u) [DecidableEq T] :
    Machine (CanTx n T) (CanTxEvent n T) (CanTxObs T) where
  step s
    | .write t data rest => s.write t data rest
    | .run t sendOk => s.threadStep t sendOk
    | .isr no txDone => (s.canIsr no txDone, [])

/-! ## What a step can do -/

namespace CanTx

@[simp] theorem setBox_pc (s : CanTx n T) (no : Fin n) (box : CanSndBox T) :
    (s.setBox no box).pc = s.pc := rfl

@[simp] theorem setBox_buffer_self (s : CanTx n T) (no : Fin n) (box : CanSndBox T) :
    (s.setBox no box).buffer no = box := Function.update_self ..

theorem setBox_buffer_of_ne (s : CanTx n T) {no no' : Fin n} (box : CanSndBox T) (h : no' ≠ no) :
    (s.setBox no box).buffer no' = s.buffer no' := Function.update_of_ne h ..

@[simp] theorem setBox_pool (s : CanTx n T) (no : Fin n) (box : CanSndBox T) :
    (s.setBox no box).pool = s.pool := rfl

end CanTx

section Moves

variable [DecidableEq T]

/-- The moves of a thread in `_can_int_tx`. -/
inductive CanTxMove (s : CanTx n T) (t : T) (sendOk : Bool) :
    CanTx n T → List (CanTxObs T) → Prop
  | stay (hpc : s.pc t = .idle ∨ (∃ c, s.pc t = .asleep c) ∨ ∃ no c, s.pc t = .suspended no c) :
    CanTxMove s t sendOk s []
  | take (c) (hpc : s.pc t = .take c) : CanTxMove s t sendOk (s.semTake t c) []
  | unlink (c no free) (hpc : s.pc t = .unlink c) (hfree : s.freelist = no :: free) :
    CanTxMove s t sendOk ({ s with freelist := free }.goto t (.mark no c)) []
  | corrupted (c) (hpc : s.pc t = .unlink c) (hfree : s.freelist = []) :
    CanTxMove s t sendOk s [.corrupted]
  | mark (no c) (hpc : s.pc t = .mark no c) :
    CanTxMove s t sendOk
      ((s.setBox no { s.buffer no with result := .wait }).goto t (.send no c)) []
  | sendOk (no c) (hpc : s.pc t = .send no c) (hok : sendOk = true) :
    CanTxMove s t sendOk (s.goto t (.wait no c)) []
  | sendFail (no c) (hpc : s.pc t = .send no c) (hfail : sendOk = false) :
    CanTxMove s t sendOk (s.goto t (.relink no c)) []
  | relink (no c) (hpc : s.pc t = .relink no c) :
    CanTxMove s t sendOk ({ s with freelist := no :: s.freelist }.goto t (.retry c)) []
  | retry (c) (hpc : s.pc t = .retry c) : CanTxMove s t sendOk (s.semRelease t (.take c)) []
  | waitDone (no c) (hpc : s.pc t = .wait no c) (hflag : (s.buffer no).completion.flag = true) :
    CanTxMove s t sendOk
      ((s.setBox no { s.buffer no with completion.flag := false }).goto t (.finish no c)) []
  | assertion (no c) (hpc : s.pc t = .wait no c)
    (hlist : (s.buffer no).completion.suspendedList ≠ []) : CanTxMove s t sendOk s [.assertion]
  | suspend (no c) (hpc : s.pc t = .wait no c)
    (hflag : (s.buffer no).completion.flag = false) :
    CanTxMove s t sendOk
      ((s.setBox no { s.buffer no with completion.suspendedList := [t] }).goto t
        (.suspended no c)) []
  | clean (no c) (hpc : s.pc t = .clean no c) :
    CanTxMove s t sendOk
      ((s.setBox no { s.buffer no with completion.flag := false }).goto t (.finish no c)) []
  | finish (no c) (hpc : s.pc t = .finish no c) :
    CanTxMove s t sendOk
      ({ s with freelist := s.freelist ++ [no] }.goto t (.post (s.buffer no).result c)) []
  | post (result c) (hpc : s.pc t = .post result c) :
    CanTxMove s t sendOk (s.semRelease t (.check result c)) []
  | checkLast (c) (hpc : s.pc t = .check .ok c) (hrest : c.rest = []) :
    CanTxMove s t sendOk (s.goto t .idle) [.returned t (c.sent + 1)]
  | checkNext (c data rest) (hpc : s.pc t = .check .ok c) (hrest : c.rest = data :: rest) :
    CanTxMove s t sendOk (s.goto t (.take ⟨c.sent + 1, data, rest⟩)) []
  | checkDropped (result c) (hpc : s.pc t = .check result c) (hresult : result ≠ .ok) :
    CanTxMove s t sendOk (s.goto t .idle) [.returned t c.sent]

theorem canTxMove_threadStep (s : CanTx n T) (t : T) (sendOk : Bool) :
    CanTxMove s t sendOk (s.threadStep t sendOk).1 (s.threadStep t sendOk).2 := by
  unfold CanTx.threadStep
  cases hpc : s.pc t with
  | idle => exact .stay (.inl hpc)
  | take c => exact .take c hpc
  | asleep c => exact .stay (.inr (.inl ⟨c, hpc⟩))
  -- `rt_list_entry(tx_fifo->freelist.next, …)` is read without a check
  | unlink c =>
    cases hfree : s.freelist with
    | cons no free => exact .unlink c no free hpc hfree
    | nil => exact .corrupted c hpc hfree
  | mark no c => exact .mark no c hpc
  | send no c =>
    cases sendOk with
    | true => exact .sendOk no c hpc rfl
    | false => exact .sendFail no c hpc rfl
  | relink no c => exact .relink no c hpc
  | retry c => exact .retry c hpc
  -- first the flag is read, then the list is asserted to be empty
  | wait no c =>
    simp only [CanTx.completionWait]
    split
    · next hflag => exact .waitDone no c hpc hflag
    · next hflag =>
      split
      · next hlist => exact .assertion no c hpc hlist
      · exact .suspend no c hpc (Bool.not_eq_true _ ▸ hflag)
  | suspended no c => exact .stay (.inr (.inr ⟨no, c, hpc⟩))
  | clean no c => exact .clean no c hpc
  | finish no c => exact .finish no c hpc
  | post result c => exact .post result c hpc
  -- the result was read before the release
  | check result c =>
    simp only [CanTx.finishMsg]
    cases result with
    | ok =>
      -- the loop ends with the last message
      cases hrest : c.rest with
      | nil => exact .checkLast c hpc hrest
      | cons data rest => exact .checkNext c data rest hpc hrest
    | err => exact .checkDropped .err c hpc (by decide)
    | wait => exact .checkDropped .wait c hpc (by decide)

/-! ## The boxes are a pool -/

namespace CanTx

@[simp] theorem goto_pc_self (s : CanTx n T) (t : T) (pc : CanTxPc n) : (s.goto t pc).pc t = pc :=
  Function.update_self ..

theorem goto_pc_of_ne (s : CanTx n T) {t u : T} (pc : CanTxPc n) (h : u ≠ t) :
    (s.goto t pc).pc u = s.pc u := Function.update_of_ne h ..

@[simp] theorem goto_buffer (s : CanTx n T) (t : T) (pc : CanTxPc n) :
    (s.goto t pc).buffer = s.buffer := rfl

theorem goto_pool (s : CanTx n T) (t : T) (pc : CanTxPc n) :
    (s.goto t pc).pool = ⟨s.freelist, s.sem, Function.update s.pool.phase t pc.phase⟩ := by
  have hphase : (fun u => (Function.update s.pc t pc u).phase) =
      Function.update (fun u => (s.pc u).phase) t pc.phase :=
    Function.comp_update CanTxPc.phase s.pc t pc
  exact congrArg (Pool.mk s.freelist s.sem) hphase

/-- Moving on inside one phase is no move of the pool. -/
theorem goto_pool_of_phase_eq (s : CanTx n T) {t : T} {pc : CanTxPc n}
    (h : pc.phase = (s.pc t).phase) : (s.goto t pc).pool = s.pool := by
  rw [goto_pool, h]
  exact congrArg (Pool.mk s.freelist s.sem) (Function.update_eq_self t s.pool.phase)

theorem semTake_pool (s : CanTx n T) (t : T) (c : CanTxCall) :
    (s.semTake t c).pool = s.pool.take t := by
  rw [semTake, goto_pool, apply_ite CanTxPc.phase]
  rfl

theorem semRelease_pool (s : CanTx n T) (t : T) {pc : CanTxPc n} (hpc : pc.phase = .outside) :
    (s.semRelease t pc).pool = s.pool.release t := by
  cases hsuspended : s.sem.suspended with
  -- nobody waits: only the permit and the place of `t` change
  | nil =>
    have hrelease : s.semRelease t pc = { s with sem := s.sem.release }.goto t pc := by
      simp only [semRelease, hsuspended]
    rw [hrelease, goto_pool, hpc]
    simp only [Pool.release, pool, hsuspended]
  | cons w ws =>
    have hrelease : s.semRelease t pc = ({ s with sem := s.sem.release }.goto t pc).goto w
        (({ s with sem := s.sem.release }.goto t pc).pc w).semResume := by
      simp only [semRelease, hsuspended]
    have hgoto := goto_pool { s with sem := s.sem.release } t pc
    rw [hpc] at hgoto
    have hphase := congrArg Pool.phase hgoto
    rw [hrelease, goto_pool, CanTxPc.phase_semResume]
    -- the waiter is woken in the pool in which `t` has already left
    change Pool.mk s.freelist s.sem.release (Function.update
      ({ s with sem := s.sem.release }.goto t pc).pool.phase w
      (({ s with sem := s.sem.release }.goto t pc).pool.phase w).wake) = s.pool.release t
    rw [hphase]
    simp only [Pool.release, pool, hsuspended]

/-- The interrupt moves no thread in the pool. -/
theorem canIsr_pool (s : CanTx n T) (no : Fin n) (txDone : Bool) :
    (s.canIsr no txDone).pool = s.pool := by
  unfold canIsr completionDone
  generalize { s.buffer no with result := if txDone then CanSndResult.ok else .err } = box
  dsimp only
  -- at most a thread that holds its box goes on, inside the same phase
  split
  · rfl
  · split
    · exact goto_pool_of_phase_eq _ (CanTxPc.phase_completionResume _)
    · rfl

/-- A report on a box that nobody waits for raises its flag. -/
theorem canIsr_of_nobody {s : CanTx n T} {no : Fin n} (txDone : Bool)
    (hflag : (s.buffer no).completion.flag = false)
    (hlist : (s.buffer no).completion.suspendedList = []) :
    s.canIsr no txDone = s.setBox no ⟨⟨true, []⟩, if txDone then .ok else .err⟩ := by
  simp [canIsr, completionDone, setBox, hflag, hlist]

/-- A report on a box that `t` waits for wakes `t`. -/
theorem canIsr_of_waiter {s : CanTx n T} {no : Fin n} {t : T} {c : CanTxCall} (txDone : Bool)
    (hpc : s.pc t = .suspended no c) (hflag : (s.buffer no).completion.flag = false)
    (hlist : (s.buffer no).completion.suspendedList = [t]) :
    s.canIsr no txDone =
      (s.setBox no ⟨⟨true, []⟩, if txDone then .ok else .err⟩).goto t (.clean no c) := by
  simp [canIsr, completionDone, setBox, hpc, hflag, hlist, CanTxPc.completionResume]

end CanTx

/-! ## Who waits for a completion -/

namespace CanTx

theorem semResume_eq_suspended {pc : CanTxPc n} {no : Fin n} {c : CanTxCall} :
    pc.semResume = .suspended no c ↔ pc = .suspended no c := by
  cases pc <;> simp [CanTxPc.semResume]

/-- A release wakes no thread that waits for a completion. -/
theorem semRelease_pc_eq_suspended (s : CanTx n T) (t : T) (pc : CanTxPc n) (u : T) {no : Fin n}
    {c : CanTxCall} :
    (s.semRelease t pc).pc u = .suspended no c ↔ (s.goto t pc).pc u = .suspended no c := by
  unfold semRelease
  cases s.sem.suspended with
  | nil => exact Iff.rfl
  | cons w ws =>
    -- the waiter of the semaphore is asleep before and unlinks after
    by_cases hu : u = w
    · subst hu
      exact (iff_of_eq (congrArg (· = _) (goto_pc_self ..))).trans semResume_eq_suspended
    · exact iff_of_eq (congrArg (· = _) (goto_pc_of_ne _ _ hu))

@[simp] theorem semRelease_buffer (s : CanTx n T) (t : T) (pc : CanTxPc n) :
    (s.semRelease t pc).buffer = s.buffer := by
  unfold semRelease
  cases s.sem.suspended <;> rfl

/-- `suspended_list` holds the thread that waits for the box, and the flag is down while it does. -/
structure WaitInv (s : CanTx n T) : Prop where
  waiter : ∀ no t, t ∈ (s.buffer no).completion.suspendedList → ∃ c, s.pc t = .suspended no c
  suspended : ∀ no t c, s.pc t = .suspended no c →
    (s.buffer no).completion.suspendedList = [t] ∧ (s.buffer no).completion.flag = false

variable {s s' : CanTx n T} {t : T}

omit [DecidableEq T] in
/-- Nothing is to show where the waiters stay and no flag is raised. -/
theorem WaitInv.of_same (h : s.WaitInv)
    (hpc : ∀ u no c, s'.pc u = .suspended no c ↔ s.pc u = .suspended no c)
    (hlist : ∀ no, (s'.buffer no).completion.suspendedList = (s.buffer no).completion.suspendedList)
    (hflag : ∀ no, (s.buffer no).completion.flag = false →
      (s'.buffer no).completion.flag = false) : s'.WaitInv where
  waiter no u hu := (h.waiter no u (hlist no ▸ hu)).imp fun c hc => (hpc u no c).mpr hc
  suspended no u c hu := by
    obtain ⟨hold, hdown⟩ := h.suspended no u c ((hpc u no c).mp hu)
    exact ⟨(hlist no).trans hold, hflag no hdown⟩

/-- A thread that does not wait before and after its step changes no waiter. -/
theorem goto_pc_eq_suspended {pc : CanTxPc n} (hold : ∀ no c, s.pc t ≠ .suspended no c)
    (hnew : ∀ no c, pc ≠ .suspended no c) (u : T) (no : Fin n) (c : CanTxCall) :
    (s.goto t pc).pc u = .suspended no c ↔ s.pc u = .suspended no c := by
  by_cases hu : u = t
  · subst hu
    rw [goto_pc_self]
    exact ⟨fun h => absurd h (hnew no c), fun h => absurd h (hold no c)⟩
  · rw [goto_pc_of_ne _ _ hu]

theorem WaitInv.goto (h : s.WaitInv) {pc : CanTxPc n} (hold : ∀ no c, s.pc t ≠ .suspended no c)
    (hnew : ∀ no c, pc ≠ .suspended no c) : (s.goto t pc).WaitInv :=
  h.of_same (goto_pc_eq_suspended hold hnew) (fun _ => rfl) fun _ hdown => hdown

theorem WaitInv.semRelease (h : s.WaitInv) {pc : CanTxPc n}
    (hold : ∀ no c, s.pc t ≠ .suspended no c) (hnew : ∀ no c, pc ≠ .suspended no c) :
    (s.semRelease t pc).WaitInv :=
  h.of_same
    (fun u no c => (semRelease_pc_eq_suspended s t pc u).trans
      (goto_pc_eq_suspended hold hnew u no c))
    (fun no => by rw [semRelease_buffer]) fun no hdown => by rwa [semRelease_buffer]

omit [DecidableEq T] in
/-- A new result, or a flag taken down, leaves the waiters alone. -/
theorem WaitInv.setBox (h : s.WaitInv) {no : Fin n} {box : CanSndBox T}
    (hlist : box.completion.suspendedList = (s.buffer no).completion.suspendedList)
    (hflag : (s.buffer no).completion.flag = false → box.completion.flag = false) :
    (s.setBox no box).WaitInv := by
  refine h.of_same (fun _ _ _ => Iff.rfl) (fun no' => ?_) fun no' hdown => ?_
  -- the lists of all boxes stay
  · by_cases hno : no' = no
    · subst hno
      rw [setBox_buffer_self, hlist]
    · rw [setBox_buffer_of_ne _ _ hno]
  · by_cases hno : no' = no
    · subst hno
      rw [setBox_buffer_self]
      exact hflag hdown
    · rwa [setBox_buffer_of_ne _ _ hno]

theorem WaitInv.setBox_goto (h : s.WaitInv) {no : Fin n} {box : CanSndBox T} {pc : CanTxPc n}
    (hlist : box.completion.suspendedList = (s.buffer no).completion.suspendedList)
    (hflag : (s.buffer no).completion.flag = false → box.completion.flag = false)
    (hold : ∀ no c, s.pc t ≠ .suspended no c) (hnew : ∀ no c, pc ≠ .suspended no c) :
    ((s.setBox no box).goto t pc).WaitInv :=
  (h.setBox hlist hflag).goto hold hnew

/-- The first thread that waits for a box. -/
theorem WaitInv.suspend (h : s.WaitInv) {no : Fin n} {c : CanTxCall} {box : CanSndBox T}
    (hpc : s.pc t = .wait no c) (hempty : (s.buffer no).completion.suspendedList = [])
    (hlist : box.completion.suspendedList = [t]) (hdown : box.completion.flag = false) :
    ((s.setBox no box).goto t (.suspended no c)).WaitInv := by
  constructor
  · intro no' u hu
    rw [goto_buffer] at hu
    -- the list of the box holds `t`, which is suspended now
    by_cases hno : no' = no
    · subst hno
      rw [setBox_buffer_self, hlist, List.mem_singleton] at hu
      subst hu
      exact ⟨c, goto_pc_self ..⟩
    · rw [setBox_buffer_of_ne _ _ hno] at hu
      obtain ⟨c', hc'⟩ := h.waiter no' u hu
      have hut : u ≠ t := by
        rintro rfl
        rw [hpc] at hc'
        cases hc'
      exact ⟨c', (goto_pc_of_ne _ _ hut).trans hc'⟩
  · intro no' u c' hu
    rw [goto_buffer]
    -- a box that another thread waits for is not this one, whose list was empty
    by_cases hut : u = t
    · subst hut
      rw [goto_pc_self] at hu
      cases hu
      exact ⟨by rw [setBox_buffer_self, hlist], by rw [setBox_buffer_self, hdown]⟩
    · rw [goto_pc_of_ne _ _ hut] at hu
      obtain ⟨hold, hdown'⟩ := h.suspended no' u c' hu
      have hno : no' ≠ no := by
        rintro rfl
        rw [hempty] at hold
        cases hold
      rw [setBox_buffer_of_ne _ _ hno]
      exact ⟨hold, hdown'⟩

/-- The interrupt wakes the thread that waits for the box, if there is one. -/
theorem WaitInv.completionDone (h : s.WaitInv) (no : Fin n) : (s.completionDone no).WaitInv := by
  unfold CanTx.completionDone
  dsimp only
  -- a box that is done is left alone
  split
  · exact h
  · cases hlist : (s.buffer no).completion.suspendedList with
    | nil =>
      -- nobody waits for this box, so its flag concerns nobody
      have hnobody : ∀ u c, s.pc u ≠ .suspended no c := by
        intro u c hu
        have hsome := (h.suspended no u c hu).1
        rw [hlist] at hsome
        cases hsome
      constructor
      · intro no' u hu
        by_cases hno : no' = no
        · subst hno
          rw [setBox_buffer_self] at hu
          cases hu
        · rw [setBox_buffer_of_ne _ _ hno] at hu
          exact h.waiter no' u hu
      · intro no' u c hu
        have hno : no' ≠ no := by
          rintro rfl
          exact hnobody u c hu
        rw [setBox_buffer_of_ne _ _ hno]
        exact h.suspended no' u c hu
    | cons t ts =>
      -- the only thread in the list goes on, and the list is empty
      obtain ⟨c, hpc⟩ := h.waiter no t (hlist ▸ List.mem_cons_self)
      have hone := (h.suspended no t c hpc).1
      rw [hlist] at hone
      obtain rfl : ts = [] := (List.cons.inj hone).2
      constructor
      · intro no' u hu
        rw [goto_buffer] at hu
        by_cases hno : no' = no
        · subst hno
          rw [setBox_buffer_self] at hu
          cases hu
        · rw [setBox_buffer_of_ne _ _ hno] at hu
          obtain ⟨c', hc'⟩ := h.waiter no' u hu
          have hut : u ≠ t := by
            rintro rfl
            rw [hpc] at hc'
            exact hno (CanTxPc.suspended.inj hc').1.symm
          exact ⟨c', (goto_pc_of_ne _ _ hut).trans hc'⟩
      · intro no' u c' hu
        have hut : u ≠ t := by
          rintro rfl
          rw [goto_pc_self, hpc] at hu
          cases hu
        rw [goto_pc_of_ne _ _ hut] at hu
        -- who still waits is another thread, and waits for another box
        obtain ⟨hold, hdown⟩ := h.suspended no' u c' hu
        have hno : no' ≠ no := by
          rintro rfl
          rw [hlist] at hold
          exact hut (List.cons.inj hold).1.symm
        rw [goto_buffer, setBox_buffer_of_ne _ _ hno]
        exact ⟨hold, hdown⟩

end CanTx

/-! ## Every run -/

namespace CanTx

variable [Fintype T] {s : CanTx n T} {t : T}

/-- **Invariant** of the transmission: the boxes are accounted for, and who waits for a box is in
its list. -/
structure CanTxInv (s : CanTx n T) : Prop where
  accounted : s.pool.Accounted
  waits : s.WaitInv

omit [DecidableEq T] in
/-- A box has one owner, so nobody waits for a box that a thread is about to wait for. -/
theorem CanTxInv.suspendedList_eq_nil (h : s.CanTxInv) {no : Fin n} {c : CanTxCall}
    (hpc : s.pc t = .wait no c) : (s.buffer no).completion.suspendedList = [] := by
  by_contra hne
  obtain ⟨u, us, hcons⟩ := List.exists_cons_of_ne_nil hne
  obtain ⟨c', hu⟩ := h.waits.waiter no u (hcons ▸ List.mem_cons_self)
  -- a thread in the list owns the box too
  have hut : u = t := h.accounted.unique u t no (congrArg CanTxPc.phase hu)
    (congrArg CanTxPc.phase hpc)
  rw [hut, hpc] at hu
  cases hu

omit [DecidableEq T] in
/-- A thread that holds a permit finds a free box. -/
theorem CanTxInv.freelist_ne_nil (h : s.CanTxInv) {c : CanTxCall} (hpc : s.pc t = .unlink c) :
    s.freelist ≠ [] := by
  refine h.accounted.free_ne_nil (t := t) ?_
  change 0 < (s.pc t).phase.reserved
  rw [hpc]
  exact Nat.one_pos

/-- **Step lemma** for the threads; no check fails on the way. -/
theorem CanTxInv.move {sendOk : Bool} {s' : CanTx n T} {os : List (CanTxObs T)} (h : s.CanTxInv)
    (hmove : CanTxMove s t sendOk s' os) :
    s'.CanTxInv ∧ ∀ o ∈ os, o ≠ .assertion ∧ o ≠ .corrupted := by
  obtain ⟨haccounted, hwaits⟩ := h
  -- how a step inside one phase of the pool keeps the account
  have hsame : ∀ {pc pc' : CanTxPc n} {no : Fin n} {box : CanSndBox T}, s.pc t = pc →
      pc'.phase = pc.phase → ((s.setBox no box).goto t pc').pool.Accounted := by
    intro pc pc' no box hpc hphase
    rw [goto_pool_of_phase_eq _ (by rw [setBox_pc, hpc, hphase])]
    exact haccounted
  have hgoto : ∀ {pc pc' : CanTxPc n}, s.pc t = pc → pc'.phase = pc.phase →
      (s.goto t pc').pool.Accounted := by
    intro pc pc' hpc hphase
    rw [goto_pool_of_phase_eq _ (by rw [hpc, hphase])]
    exact haccounted
  cases hmove with
  | stay => exact ⟨⟨haccounted, hwaits⟩, by simp⟩
  -- in the pool: take a permit, or fall asleep
  | take c hpc =>
    refine ⟨⟨?_, ?_⟩, by simp⟩
    · rw [semTake_pool]
      exact haccounted.take (congrArg CanTxPc.phase hpc)
    · have hnew : ∀ (no : Fin n) c', (if 0 < s.sem.value then .unlink c else .asleep c) ≠
          CanTxPc.suspended no c' := by
        intro no c'
        split <;> simp
      exact WaitInv.goto (s := { s with sem := s.sem.take t })
        (hwaits.of_same (fun _ _ _ => Iff.rfl) (fun _ => rfl) fun _ hdown => hdown) (by simp [hpc])
        hnew
  -- the permit becomes a box
  | unlink c no free hpc hfree =>
    refine ⟨⟨?_, ?_⟩, by simp⟩
    · have hstep : ({ s with freelist := free }.goto t (.mark no c)).pool = s.pool.unlink t := by
        rw [goto_pool]
        simp only [Pool.unlink, pool, hfree]
        rfl
      rw [hstep]
      exact haccounted.unlink (congrArg CanTxPc.phase hpc)
    · exact WaitInv.goto (s := { s with freelist := free })
        (hwaits.of_same (fun _ _ _ => Iff.rfl) (fun _ => rfl) fun _ hdown => hdown) (by simp [hpc])
        (by simp)
  | corrupted c hpc hfree =>
    exact absurd hfree (CanTxInv.freelist_ne_nil ⟨haccounted, hwaits⟩ hpc)
  | mark no c hpc =>
    exact ⟨⟨hsame hpc rfl, hwaits.setBox_goto rfl id (by simp [hpc]) (by simp)⟩, by simp⟩
  | sendOk no c hpc =>
    exact ⟨⟨hgoto hpc rfl, hwaits.goto (by simp [hpc]) (by simp)⟩, by simp⟩
  | sendFail no c hpc =>
    exact ⟨⟨hgoto hpc rfl, hwaits.goto (by simp [hpc]) (by simp)⟩, by simp⟩
  -- the box goes back, and with it the promise of a permit
  | relink no c hpc =>
    refine ⟨⟨?_, ?_⟩, by simp⟩
    · rw [goto_pool]
      exact haccounted.put (congrArg CanTxPc.phase hpc) (.refl _)
    · exact WaitInv.goto (s := { s with freelist := no :: s.freelist })
        (hwaits.of_same (fun _ _ _ => Iff.rfl) (fun _ => rfl) fun _ hdown => hdown) (by simp [hpc])
        (by simp)
  -- the permit goes back, or straight to a waiter
  | retry c hpc =>
    refine ⟨⟨?_, hwaits.semRelease (by simp [hpc]) (by simp)⟩, by simp⟩
    rw [semRelease_pool _ _ rfl]
    exact haccounted.release (congrArg CanTxPc.phase hpc)
  | waitDone no c hpc =>
    exact ⟨⟨hsame hpc rfl,
      hwaits.setBox_goto rfl (fun _ => rfl) (by simp [hpc]) (by simp)⟩, by simp⟩
  | assertion no c hpc hlist =>
    exact absurd (CanTxInv.suspendedList_eq_nil ⟨haccounted, hwaits⟩ hpc) hlist
  | suspend no c hpc hdown =>
    have hempty := CanTxInv.suspendedList_eq_nil ⟨haccounted, hwaits⟩ hpc
    exact ⟨⟨hsame hpc rfl, hwaits.suspend hpc hempty rfl hdown⟩, by simp⟩
  | clean no c hpc =>
    exact ⟨⟨hsame hpc rfl,
      hwaits.setBox_goto rfl (fun _ => rfl) (by simp [hpc]) (by simp)⟩, by simp⟩
  -- the box goes to the other end of the list than an unused one
  | finish no c hpc =>
    refine ⟨⟨?_, ?_⟩, by simp⟩
    · rw [goto_pool]
      exact haccounted.put (congrArg CanTxPc.phase hpc) (List.perm_append_singleton _ _)
    · exact WaitInv.goto (s := { s with freelist := s.freelist ++ [no] })
        (hwaits.of_same (fun _ _ _ => Iff.rfl) (fun _ => rfl) fun _ hdown => hdown) (by simp [hpc])
        (by simp)
  | post result c hpc =>
    refine ⟨⟨?_, hwaits.semRelease (by simp [hpc]) (by simp)⟩, by simp⟩
    rw [semRelease_pool _ _ rfl]
    exact haccounted.release (congrArg CanTxPc.phase hpc)
  -- behind its release a thread has neither a box nor a permit
  | checkLast c hpc => exact ⟨⟨hgoto hpc rfl, hwaits.goto (by simp [hpc]) (by simp)⟩, by simp⟩
  | checkNext c data rest hpc =>
    exact ⟨⟨hgoto hpc rfl, hwaits.goto (by simp [hpc]) (by simp)⟩, by simp⟩
  | checkDropped result c hpc =>
    exact ⟨⟨hgoto hpc rfl, hwaits.goto (by simp [hpc]) (by simp)⟩, by simp⟩

/-- **Step lemma** for the interrupt. -/
theorem CanTxInv.canIsr (h : s.CanTxInv) (no : Fin n) (txDone : Bool) :
    (s.canIsr no txDone).CanTxInv where
  accounted := by
    rw [canIsr_pool]
    exact h.accounted
  waits :=
    -- the result is written first; no invariant is about it
    have hresult : (s.setBox no
        { s.buffer no with result := if txDone then .ok else .err }).WaitInv :=
      h.waits.setBox rfl id
    hresult.completionDone no

theorem CanTxInv.write (h : s.CanTxInv) (t : T) (data : RtCanMsg) (rest : List RtCanMsg) :
    (s.write t data rest).1.CanTxInv ∧
      ∀ o ∈ (s.write t data rest).2, o ≠ .assertion ∧ o ≠ .corrupted := by
  unfold CanTx.write
  -- a thread outside enters the loop, still outside the pool
  split
  · next hpc =>
    refine ⟨⟨?_, h.waits.goto (by simp [hpc]) (by simp)⟩, by simp⟩
    rw [goto_pool_of_phase_eq _ (by rw [hpc]; rfl)]
    exact h.accounted
  · exact ⟨h, by simp⟩

theorem canTxInv_step (s : CanTx n T) (e : CanTxEvent n T) (h : s.CanTxInv) :
    ((canTxMachine n T).next s e).CanTxInv ∧
      ∀ o ∈ (canTxMachine n T).emit s e, o ≠ .assertion ∧ o ≠ .corrupted := by
  cases e with
  | write t data rest => exact h.write t data rest
  | run t sendOk => exact h.move (canTxMove_threadStep s t sendOk)
  | isr no txDone => exact ⟨h.canIsr no txDone, List.forall_mem_nil _⟩

omit [DecidableEq T] in
theorem canTxInv_opened : (opened n T).CanTxInv where
  accounted :=
    { nodup := List.nodup_finRange n
      not_free := fun _ _ => (nomatch ·)
      unique := fun _ _ _ => (nomatch ·)
      covered := fun no => .inl (List.mem_finRange no)
      -- as many permits as boxes, and nobody holds either
      permits := by
        change n + ∑ _ : T, 0 = (List.finRange n).length
        rw [Finset.sum_const_zero, List.length_finRange, Nat.add_zero]
      sleepers := fun _ => ⟨(nomatch ·), (nomatch ·)⟩
      sleepers_nodup := List.nodup_nil
      nobody_waits := fun _ => rfl }
  waits := ⟨fun _ _ => (nomatch ·), fun _ _ _ => (nomatch ·)⟩

end CanTx

open CanTx in
/-- **Run lemma.** Whatever the interrupt reports and the driver answers, in every run of any
threads every box is free or has one owner, the permits match the free boxes, `freelist` is never
empty when it is read, and `rt_completion_wait` never finds another waiter. -/
theorem canTx_safe [Fintype T] (es : List (CanTxEvent n T)) :
    ((canTxMachine n T).run (opened n T) es).pool.Accounted ∧
      ∀ o ∈ (canTxMachine n T).trace (opened n T) es, o ≠ .assertion ∧ o ≠ .corrupted :=
  ⟨(Machine.run_invariant (fun s e h => (canTxInv_step s e h).1) canTxInv_opened es).accounted,
    Machine.forall_mem_trace (fun s e h => (canTxInv_step s e h).2)
      (fun s e h => (canTxInv_step s e h).1) canTxInv_opened es⟩

end Moves

end RobomasterFirmware.Drivers
