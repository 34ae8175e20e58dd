import RobomasterFirmware.Drivers.Can
import RobomasterFirmware.Lib.Machine

/-!
# The CAN Receive Handshake

`applications/can_rw.c` again, now for how a frame gets from the receive interrupt to the dispatch:
the interrupt stores the frame and releases `rx_sem` if `can_rx_call` is registered, the thread
takes `rx_sem` and reads one frame. The steps of the thread are its critical sections and the
statements between them; an interrupt can come between any two.

The handshake rests on one token for every waiting frame. An arrival before the registration adds a
frame without a token, and an arrival that finds the box full adds a token without a frame.

## Main Results
- `accounted_run`: in every run each node of the box is accounted for
- `HandshakeInv`, `handshakeInv_next`: the invariant and its step lemma
- `handshake_of_timely`: without the two kinds of arrival above, frames are dispatched exactly once
  and in order, and the thread never waits while one is there
-/

namespace RobomasterFirmware.Applications

open RobomasterFirmware.Drivers
open RobomasterFirmware.Lib

/-! ## Model -/

/-- Where `can_rx_thread` is. -/
inductive CanRxPc where
  /-- `rt_device_set_rx_indicate(can1_dev, can_rx_call)` -/
  | register
  /-- `rxmsg.hdr = -1` -/
  | setHdr
  /-- `rt_sem_take(&rx_sem, RT_WAITING_FOREVER)` -/
  | semTake
  /-- suspended in `rt_sem_take` -/
  | blocked
  /-- `rt_device_read`, the first critical section of `_can_int_rx` -/
  | read
  /-- `rt_memcpy` from the node to `rxmsg` -/
  | copy (n : Fin 16)
  /-- the second critical section -/
  | free (n : Fin 16)
  /-- `switch(rxmsg.id)` and what follows it -/
  | dispatch
  deriving DecidableEq

/-- The state shared by interrupt and thread, and three ghost components: how many frames have
arrived, which of them `rxmsg` holds, and which ones were dispatched, oldest first. -/
structure CanRxState where
  fifo : CanRxFifo
  rxIndicate : Bool
  rxSem : UInt16
  pc : CanRxPc
  rxmsg : RtCanMsg
  received : ℕ
  rxSerial : Option ℕ
  dispatched : List (Option ℕ)

namespace CanRxState

/-- The device has just been opened, the thread has not run yet. -/
def opened : CanRxState where
  fifo := .opened
  rxIndicate := false
  rxSem := 0
  pc := .register
  rxmsg := .zero
  received := 0
  rxSerial := none
  dispatched := []

/-- `rt_sem_release`: the waiting thread gets the token, otherwise the value grows. -/
def semRelease (s : CanRxState) : CanRxState :=
  if s.pc = .blocked then { s with pc := .read } else { s with rxSem := s.rxSem + 1 }

/-- `rt_sem_take`, called by the thread. -/
def semTake (s : CanRxState) : CanRxState :=
  if s.rxSem > 0 then { s with rxSem := s.rxSem - 1, pc := .read } else { s with pc := .blocked }

/-- The interrupt up to the callback: the frame goes into the box. -/
def store (s : CanRxState) (msg : RtCanMsg) : CanRxState :=
  { s with fifo := s.fifo.rxInd ⟨s.received, msg⟩, received := s.received + 1 }

/-- `rt_hw_can_isr` for a received frame: store it, then call `rx_indicate` if there is one and
`uselist` is not empty. -/
def hwCanIsr (s : CanRxState) (msg : RtCanMsg) : CanRxState :=
  let s := s.store msg
  if s.rxIndicate ∧ s.fifo.uselist.length ≠ 0 then s.semRelease else s

/-- One step of `can_rx_thread`. -/
def threadStep (s : CanRxState) : CanRxState :=
  match s.pc with
  | .register => { s with rxIndicate := true, pc := .setHdr }
  | .setHdr => { s with rxmsg.hdr := -1, pc := .semTake }
  | .semTake => s.semTake
  | .blocked => s
  | .read =>
    match s.fifo.takeNode s.rxmsg.hdr with
    | (some n, fifo) => { s with fifo := fifo, pc := .copy n }
    -- nothing to read: `rxmsg` keeps its old contents
    | (none, fifo) => { s with fifo := fifo, pc := .dispatch }
  | .copy n =>
    { s with
      rxmsg := (s.fifo.buffer n).msg
      rxSerial := some (s.fifo.buffer n).serial
      pc := .free n }
  | .free n => { s with fifo := s.fifo.freeNode n, pc := .dispatch }
  | .dispatch => { s with dispatched := s.dispatched ++ [s.rxSerial], pc := .setHdr }

end CanRxState

/-- A frame arrives, or the thread makes a step. -/
inductive CanRxEvent where
  | arrive (msg : RtCanMsg)
  | thread

/-- The interrupt and the thread, interleaved; it shows the frames as they are dispatched. -/
def canRxMachine : Machine CanRxState CanRxEvent RtCanMsg where
  step s
    | .arrive msg => (s.hwCanIsr msg, [])
    | .thread => (s.threadStep, if s.pc = .dispatch then [s.rxmsg] else [])

/-! ## What a step can do -/

/-- The moves of the thread, when it reads with `hdr = -1`. -/
inductive ThreadMove (s : CanRxState) : CanRxState → Prop
  | register (hpc : s.pc = .register) : ThreadMove s { s with rxIndicate := true, pc := .setHdr }
  | setHdr (hpc : s.pc = .setHdr) : ThreadMove s { s with rxmsg.hdr := -1, pc := .semTake }
  | semTake (hpc : s.pc = .semTake) (hsem : s.rxSem > 0) :
    ThreadMove s { s with rxSem := s.rxSem - 1, pc := .read }
  | suspend (hpc : s.pc = .semTake) (hsem : ¬ s.rxSem > 0) : ThreadMove s { s with pc := .blocked }
  | blocked (hpc : s.pc = .blocked) : ThreadMove s s
  | read (hpc : s.pc = .read) (n : Fin 16) (use : List (Fin 16))
    (huse : s.fifo.uselist = n :: use) :
    ThreadMove s { s with fifo := { s.fifo with uselist := use }, pc := .copy n }
  | readNone (hpc : s.pc = .read) (huse : s.fifo.uselist = []) :
    ThreadMove s { s with pc := .dispatch }
  | copy (n : Fin 16) (hpc : s.pc = .copy n) :
    ThreadMove s
      { s with
        rxmsg := (s.fifo.buffer n).msg
        rxSerial := some (s.fifo.buffer n).serial
        pc := .free n }
  | free (n : Fin 16) (hpc : s.pc = .free n) :
    ThreadMove s { s with fifo := s.fifo.freeNode n, pc := .dispatch }
  | dispatch (hpc : s.pc = .dispatch) :
    ThreadMove s { s with dispatched := s.dispatched ++ [s.rxSerial], pc := .setHdr }

theorem threadMove_threadStep {s : CanRxState} (hhdr : s.pc = .read → s.rxmsg.hdr = -1) :
    ThreadMove s s.threadStep := by
  cases hpc : s.pc with
  | register => simpa only [CanRxState.threadStep, hpc] using .register hpc
  | setHdr => simpa only [CanRxState.threadStep, hpc] using .setHdr hpc
  | semTake =>
    simp only [CanRxState.threadStep, hpc, CanRxState.semTake]
    split
    · exact .semTake hpc ‹_›
    · exact .suspend hpc ‹_›
  | blocked => simpa only [CanRxState.threadStep, hpc] using .blocked hpc
  -- with `hdr = -1` the node comes from `uselist`, if there is one
  | read =>
    simp only [CanRxState.threadStep, hpc, CanRxFifo.takeNode, if_pos (hhdr hpc)]
    cases huse : s.fifo.uselist with
    | nil => exact .readNone hpc huse
    | cons n use => exact .read hpc n use huse
  | copy n => simpa only [CanRxState.threadStep, hpc] using .copy n hpc
  | free n => simpa only [CanRxState.threadStep, hpc] using .free n hpc
  | dispatch => simpa only [CanRxState.threadStep, hpc] using .dispatch hpc

/-- The outcomes of an arrival: a waiting thread is woken, or a token is added, or no callback is
made. -/
theorem hwCanIsr_cases (s : CanRxState) (msg : RtCanMsg) :
    (s.pc = .blocked ∧ s.hwCanIsr msg = { s.store msg with pc := .read }) ∨
      (s.pc ≠ .blocked ∧ s.hwCanIsr msg = { s.store msg with rxSem := s.rxSem + 1 }) ∨
      ((s.rxIndicate = false ∨ (s.store msg).fifo.uselist = []) ∧
        s.hwCanIsr msg = s.store msg) := by
  unfold CanRxState.hwCanIsr
  dsimp only
  -- the callback is made if it is registered and something waits
  split
  · by_cases hpc : s.pc = .blocked
    · exact .inl ⟨hpc, if_pos hpc⟩
    · exact .inr (.inl ⟨hpc, if_neg hpc⟩)
  · next hskip =>
    refine .inr (.inr ⟨?_, rfl⟩)
    by_cases hind : s.rxIndicate = true
    · exact .inr (List.eq_nil_of_length_eq_zero (not_not.mp fun hlen => hskip ⟨hind, hlen⟩))
    · exact .inl (Bool.not_eq_true _ ▸ hind)

/-! ## Every run -/

/-- The node that the thread holds. -/
def CanRxPc.held : CanRxPc → List (Fin 16)
  | .copy n => [n]
  | .free n => [n]
  | _ => []

/-- Every node of the box is accounted for, and the thread reads through `uselist` only. -/
structure BoxInv (s : CanRxState) : Prop where
  accounted : s.fifo.Accounted s.pc.held
  hdr : s.pc = .semTake ∨ s.pc = .blocked ∨ s.pc = .read → s.rxmsg.hdr = -1

theorem BoxInv.arrive {s : CanRxState} (h : BoxInv s) (msg : RtCanMsg) :
    BoxInv (s.hwCanIsr msg) := by
  have hstore : (s.store msg).fifo.Accounted s.pc.held := h.accounted.rxInd _
  -- whether or not the thread is woken, it holds the same node
  rcases hwCanIsr_cases s msg with ⟨hpc, hs⟩ | ⟨-, hs⟩ | ⟨-, hs⟩ <;> rw [hs]
  · rw [hpc] at hstore
    exact ⟨hstore, fun _ => h.hdr (.inr (.inl hpc))⟩
  · exact ⟨hstore, h.hdr⟩
  · exact ⟨hstore, h.hdr⟩

theorem BoxInv.move {s s' : CanRxState} (h : BoxInv s) (hmove : ThreadMove s s') : BoxInv s' := by
  obtain ⟨haccounted, hhdr⟩ := h
  cases hmove with
  | register hpc => exact ⟨by simpa only [hpc, CanRxPc.held] using haccounted, by simp⟩
  | setHdr hpc => exact ⟨by simpa only [hpc, CanRxPc.held] using haccounted, fun _ => rfl⟩
  | semTake hpc =>
    exact ⟨by simpa only [hpc, CanRxPc.held] using haccounted, fun _ => hhdr (.inl hpc)⟩
  | suspend hpc =>
    exact ⟨by simpa only [hpc, CanRxPc.held] using haccounted, fun _ => hhdr (.inl hpc)⟩
  | blocked => exact ⟨haccounted, hhdr⟩
  -- the node leaves `uselist` for the hand of the thread
  | read hpc n use huse =>
    rw [hpc] at haccounted
    exact ⟨haccounted.unlink_use huse, by simp⟩
  | readNone hpc => exact ⟨by simpa only [hpc, CanRxPc.held] using haccounted, by simp⟩
  | copy n hpc => exact ⟨by simpa only [hpc, CanRxPc.held] using haccounted, by simp⟩
  -- and goes from there to `freelist`
  | free n hpc =>
    rw [hpc] at haccounted
    exact ⟨haccounted.freeNode, by simp⟩
  | dispatch hpc => exact ⟨by simpa only [hpc, CanRxPc.held] using haccounted, by simp⟩

theorem BoxInv.threadMove {s : CanRxState} (h : BoxInv s) : ThreadMove s s.threadStep :=
  threadMove_threadStep fun hpc => h.hdr (.inr (.inr hpc))

theorem boxInv_next (s : CanRxState) (e : CanRxEvent) (h : BoxInv s) :
    BoxInv (canRxMachine.next s e) := by
  cases e with
  | arrive msg => exact h.arrive msg
  | thread => exact h.move h.threadMove

theorem boxInv_opened : BoxInv .opened := ⟨CanRxFifo.accounted_opened, by simp [CanRxState.opened]⟩

/-- In every run no node is ever lost or linked twice. -/
theorem accounted_run (es : List CanRxEvent) :
    (canRxMachine.run .opened es).fifo.Accounted (canRxMachine.run .opened es).pc.held :=
  (Machine.run_invariant boxInv_next boxInv_opened es).accounted

/-! ## One token for every frame -/

/-- The token that the thread has taken for a frame still in `uselist`. -/
def CanRxPc.token : CanRxPc → ℕ
  | .read => 1
  | _ => 0

/-- The frame that the thread has unlinked and not dispatched yet. -/
def CanRxPc.inHand : CanRxPc → ℕ
  | .copy _ => 1
  | .free _ => 1
  | .dispatch => 1
  | _ => 0

/-- The number of frames that have left `uselist` through the thread. -/
def CanRxState.taken (s : CanRxState) : ℕ := s.dispatched.length + s.pc.inHand

/-- The frames are dispatched, in hand, or waiting, in the order of their arrival. -/
structure QueueInv (s : CanRxState) : Prop where
  waiting : s.fifo.serials = List.range' s.taken s.fifo.uselist.length
  received : s.received = s.taken + s.fifo.uselist.length
  inNode (n : Fin 16) : s.pc = .copy n → (s.fifo.buffer n).serial = s.dispatched.length
  inRxmsg : (∃ n, s.pc = .free n) ∨ s.pc = .dispatch → s.rxSerial = some s.dispatched.length
  dispatched : s.dispatched = (List.range s.dispatched.length).map some

/-- There is one token for every waiting frame, in the semaphore or with the thread. -/
structure TokenInv (s : CanRxState) : Prop where
  tokens : s.rxSem.toNat + s.pc.token = s.fifo.uselist.length
  blocked : s.pc = .blocked → s.rxSem = 0

/-- **Invariant** of the handshake. -/
structure HandshakeInv (s : CanRxState) : Prop where
  box : BoxInv s
  queue : QueueInv s
  token : TokenInv s

/-- An arrival is timely if the callback is registered and the box has a free node. -/
def Timely (s : CanRxState) : CanRxEvent → Prop
  | .arrive _ => s.rxIndicate = true ∧ s.fifo.freelist ≠ []
  | .thread => True

instance (s : CanRxState) : (e : CanRxEvent) → Decidable (Timely s e)
  | .arrive _ => inferInstanceAs (Decidable (_ ∧ _))
  | .thread => .isTrue trivial

/-- The frame of a timely arrival joins the end of the queue. -/
theorem QueueInv.store {s : CanRxState} (h : QueueInv s) (hbox : BoxInv s)
    (hfree : s.fifo.freelist ≠ []) (msg : RtCanMsg) : QueueInv (s.store msg) where
  waiting := by
    -- the node joins `uselist` at its end, with the next serial
    have hserials := hbox.accounted.serials_rxInd hfree ⟨s.received, msg⟩
    have hlen := CanRxFifo.length_uselist_rxInd hfree ⟨s.received, msg⟩
    change (s.fifo.rxInd ⟨s.received, msg⟩).serials = List.range' s.taken
      (s.fifo.rxInd ⟨s.received, msg⟩).uselist.length
    rw [hserials, hlen, h.waiting, h.received, List.range'_concat, Nat.one_mul]
  received := by
    have hlen := CanRxFifo.length_uselist_rxInd hfree ⟨s.received, msg⟩
    change s.received + 1 = s.taken + (s.fifo.rxInd ⟨s.received, msg⟩).uselist.length
    rw [hlen, h.received]
    rfl
  inNode n hpc := by
    have hcopy : s.pc = .copy n := hpc
    -- a node in hand is in no list, so the new frame does not go there
    have hheld : n ∈ s.pc.held := by simp [hcopy, CanRxPc.held]
    have hbuffer := hbox.accounted.buffer_rxInd hfree ⟨s.received, msg⟩ hheld
    exact (congrArg CanFrame.serial hbuffer).trans (h.inNode n hcopy)
  inRxmsg := h.inRxmsg
  dispatched := h.dispatched

/-- With the same box, ghost components and frame in hand the queue is the same. -/
theorem QueueInv.of_taken {s s' : CanRxState} (h : QueueInv s) (hfifo : s'.fifo = s.fifo)
    (hreceived : s'.received = s.received) (hdispatched : s'.dispatched = s.dispatched)
    (hpc : s.pc.inHand = 0) (hpc' : s'.pc.inHand = 0) : QueueInv s' := by
  -- nothing in hand on either side
  have htaken : s'.taken = s.taken := by
    rw [CanRxState.taken, CanRxState.taken, hdispatched, hpc, hpc']
  exact
    { waiting := by rw [hfifo, htaken, h.waiting]
      received := by rw [hreceived, htaken, hfifo, h.received]
      inNode := fun n hn => by simp [hn, CanRxPc.inHand] at hpc'
      inRxmsg := by
        rintro (⟨n, hn⟩ | hn) <;> simp [hn, CanRxPc.inHand] at hpc'
      dispatched := by rw [hdispatched, ← h.dispatched] }

theorem QueueInv.arrive {s : CanRxState} (h : QueueInv s) (hbox : BoxInv s)
    (hfree : s.fifo.freelist ≠ []) (msg : RtCanMsg) : QueueInv (s.hwCanIsr msg) := by
  have hstore := h.store hbox hfree msg
  -- the three outcomes differ in the semaphore and the wakeup only
  rcases hwCanIsr_cases s msg with ⟨hpc, hs⟩ | ⟨-, hs⟩ | ⟨-, hs⟩ <;> rw [hs]
  · have hinHand : (s.store msg).pc.inHand = 0 := congrArg CanRxPc.inHand hpc
    exact hstore.of_taken rfl rfl rfl hinHand rfl
  · exact ⟨hstore.waiting, hstore.received, hstore.inNode, hstore.inRxmsg, hstore.dispatched⟩
  · exact hstore

/-- The thread moves the oldest waiting frame into its hand and dispatches it. -/
theorem QueueInv.move {s s' : CanRxState} (h : QueueInv s)
    (hread : s.pc = .read → s.fifo.uselist ≠ []) (hmove : ThreadMove s s') : QueueInv s' := by
  cases hmove with
  | register hpc => exact h.of_taken rfl rfl rfl (congrArg CanRxPc.inHand hpc) rfl
  | setHdr hpc => exact h.of_taken rfl rfl rfl (congrArg CanRxPc.inHand hpc) rfl
  | semTake hpc => exact h.of_taken rfl rfl rfl (congrArg CanRxPc.inHand hpc) rfl
  | suspend hpc => exact h.of_taken rfl rfl rfl (congrArg CanRxPc.inHand hpc) rfl
  | blocked => exact h
  -- the first node of `uselist` holds the oldest frame
  | read hpc n use huse =>
    obtain ⟨hwaiting, hreceived, -, -, hdispatched⟩ := h
    have htaken : s.taken = s.dispatched.length := congrArg (s.dispatched.length + ·.inHand) hpc
    simp only [CanRxFifo.serials, huse, List.map_cons, List.length_cons, List.range'_succ,
      List.cons.injEq, htaken] at hwaiting hreceived
    refine ⟨hwaiting.2, ?_, fun m hm => ?_, by simp, hdispatched⟩
    · simp only [CanRxState.taken, CanRxPc.inHand]
      omega
    · obtain rfl : n = m := by simpa using hm
      exact hwaiting.1
  -- a read with nothing to read is excluded by the tokens
  | readNone hpc huse => exact absurd huse (hread hpc)
  -- the frame in hand goes from the node to `rxmsg`
  | copy n hpc =>
    have hserial := h.inNode n hpc
    obtain ⟨hwaiting, hreceived, -, -, hdispatched⟩ := h
    have htaken : s.taken = s.dispatched.length + 1 := congrArg (s.dispatched.length + ·.inHand) hpc
    rw [htaken] at hwaiting hreceived
    exact ⟨hwaiting, hreceived, by simp, fun _ => congrArg some hserial, hdispatched⟩
  | free n hpc =>
    have hserial := h.inRxmsg (.inl ⟨n, hpc⟩)
    obtain ⟨hwaiting, hreceived, -, -, hdispatched⟩ := h
    have htaken : s.taken = s.dispatched.length + 1 := congrArg (s.dispatched.length + ·.inHand) hpc
    rw [htaken] at hwaiting hreceived
    exact ⟨hwaiting, hreceived, by simp, fun _ => hserial, hdispatched⟩
  -- the frame in hand joins the dispatched ones
  | dispatch hpc =>
    have hserial := h.inRxmsg (.inr hpc)
    obtain ⟨hwaiting, hreceived, -, -, hdispatched⟩ := h
    have htaken : s.taken = (s.dispatched ++ [s.rxSerial]).length := by
      rw [List.length_append]
      exact congrArg (s.dispatched.length + ·.inHand) hpc
    rw [htaken] at hwaiting hreceived
    refine ⟨hwaiting, hreceived, by simp, by simp, ?_⟩
    simp only [hserial, List.length_append, List.length_singleton, List.range_succ,
      List.map_append, List.map_singleton, ← hdispatched]

/-! ## Tokens -/

/-- A timely arrival adds one frame and one token. -/
theorem TokenInv.arrive {s : CanRxState} (h : TokenInv s) (hbox : BoxInv s)
    (hind : s.rxIndicate = true) (hfree : s.fifo.freelist ≠ []) (msg : RtCanMsg) :
    TokenInv (s.hwCanIsr msg) := by
  obtain ⟨htokens, hblocked⟩ := h
  have hlen : (s.store msg).fifo.uselist.length = s.fifo.uselist.length + 1 :=
    CanRxFifo.length_uselist_rxInd hfree _
  rcases hwCanIsr_cases s msg with ⟨hpc, hs⟩ | ⟨hpc, hs⟩ | ⟨hskip, -⟩
  · -- the token goes to the waiting thread
    rw [hs]
    rw [hpc] at htokens
    exact ⟨by rw [hlen, ← htokens]; rfl, by simp⟩
  · rw [hs]
    -- sixteen nodes, so the 16-bit value does not wrap
    have hbound := hbox.accounted.length
    have hsem : (s.rxSem + 1).toNat = s.rxSem.toNat + 1 := by
      rw [UInt16.toNat_add, UInt16.toNat_one]
      omega
    refine ⟨?_, fun hb => absurd hb hpc⟩
    change (s.rxSem + 1).toNat + s.pc.token = (s.store msg).fifo.uselist.length
    omega
  -- both reasons to skip the callback contradict a timely arrival
  · rcases hskip with hskip | hskip
    · exact absurd hind (Bool.eq_false_iff.mp hskip)
    · rw [hskip] at hlen
      exact absurd hlen (by simp)

/-- A step that touches neither frames nor tokens. -/
theorem TokenInv.of_token {s s' : CanRxState} (h : TokenInv s) (hsem : s'.rxSem = s.rxSem)
    (huse : s'.fifo.uselist = s.fifo.uselist) (htoken : s.pc.token = 0)
    (htoken' : s'.pc.token = 0) (hpc : s'.pc ≠ .blocked) : TokenInv s' where
  tokens := by rw [hsem, huse, htoken', ← htoken, h.tokens]
  blocked hb := absurd hb hpc

/-- A read takes one frame and one token. -/
theorem TokenInv.move {s s' : CanRxState} (h : TokenInv s) (hmove : ThreadMove s s') :
    TokenInv s' := by
  have htokens := h.tokens
  cases hmove with
  | register hpc => exact h.of_token rfl rfl (congrArg CanRxPc.token hpc) rfl (by simp)
  | setHdr hpc => exact h.of_token rfl rfl (congrArg CanRxPc.token hpc) rfl (by simp)
  -- the token goes from the semaphore to the thread
  | semTake hpc hsem =>
    have hpos : 0 < s.rxSem.toNat := hsem
    have hsub : (s.rxSem - 1).toNat = s.rxSem.toNat - 1 :=
      UInt16.toNat_sub_of_le _ _ (UInt16.le_iff_toNat_le.mpr hpos)
    rw [hpc] at htokens
    refine ⟨?_, by simp⟩
    simp only [CanRxPc.token] at htokens ⊢
    omega
  -- no token, so no frame waits
  | suspend hpc hsem =>
    have hzero : s.rxSem = 0 := UInt16.toNat_inj.mp (Nat.eq_zero_of_not_pos hsem)
    rw [hpc] at htokens
    exact ⟨htokens, fun _ => hzero⟩
  | blocked => exact h
  -- one frame less, and the token of the thread is used
  | read hpc n use huse =>
    rw [hpc, huse] at htokens
    exact ⟨Nat.succ_injective htokens, by simp⟩
  -- the thread has a token, so a frame is there
  | readNone hpc huse =>
    rw [hpc, huse] at htokens
    exact absurd htokens (by simp [CanRxPc.token])
  | copy n hpc => exact h.of_token rfl rfl (congrArg CanRxPc.token hpc) rfl (by simp)
  | free n hpc => exact h.of_token rfl rfl (congrArg CanRxPc.token hpc) rfl (by simp)
  | dispatch hpc => exact h.of_token rfl rfl (congrArg CanRxPc.token hpc) rfl (by simp)

/-! ## The handshake -/

theorem handshakeInv_opened : HandshakeInv .opened where
  box := boxInv_opened
  queue := ⟨rfl, rfl, by simp [CanRxState.opened], by simp [CanRxState.opened], rfl⟩
  token := ⟨rfl, by simp [CanRxState.opened]⟩

/-- **Step lemma.** A thread step, and an arrival that is timely, keep the invariant. -/
theorem handshakeInv_next (s : CanRxState) (e : CanRxEvent) (h : HandshakeInv s)
    (htimely : Timely s e) : HandshakeInv (canRxMachine.next s e) := by
  obtain ⟨hbox, hqueue, htoken⟩ := h
  cases e with
  | arrive msg =>
    obtain ⟨hind, hfree⟩ := htimely
    exact ⟨hbox.arrive msg, hqueue.arrive hbox hfree msg, htoken.arrive hbox hind hfree msg⟩
  | thread =>
    have hmove := hbox.threadMove
    refine ⟨hbox.move hmove, hqueue.move (fun hpc huse => ?_) hmove, htoken.move hmove⟩
    -- a reading thread holds a token, so there is a frame
    have htokens := htoken.tokens
    rw [hpc, huse] at htokens
    simp [CanRxPc.token] at htokens

/-- The handshake neither strands nor repeats frames: a waiting thread leaves none behind, and no
frame is dispatched twice. -/
def HandshakeOk (s : CanRxState) : Prop :=
  (s.pc = .blocked → s.fifo.uselist = []) ∧ s.dispatched.Nodup

instance (s : CanRxState) : Decidable (HandshakeOk s) := inferInstanceAs (Decidable (_ ∧ _))

theorem HandshakeInv.handshakeOk {s : CanRxState} (h : HandshakeInv s) : HandshakeOk s := by
  refine ⟨fun hpc => ?_, ?_⟩
  · have htokens := h.token.tokens
    -- blocked with no token left: nothing waits
    rw [h.token.blocked hpc, hpc] at htokens
    exact List.eq_nil_of_length_eq_zero htokens.symm
  · rw [h.queue.dispatched]
    exact List.nodup_range.map (Option.some_injective _)

/-- **The handshake.** In every run in which each frame arrives after the registration of
`can_rx_call` and finds a free node, the thread never waits while a frame is there, no frame is
dispatched twice, and the frames are dispatched in the order of their arrival without a gap. -/
theorem handshake_of_timely (es : List CanRxEvent) (h : canRxMachine.Along Timely .opened es) :
    HandshakeOk (canRxMachine.run .opened es) ∧
      (canRxMachine.run .opened es).dispatched =
        (List.range (canRxMachine.run .opened es).dispatched.length).map some := by
  have hinv := Machine.run_of_along handshakeInv_next handshakeInv_opened h
  exact ⟨hinv.handshakeOk, hinv.queue.dispatched⟩

/-- Two frames arrive while the thread waits, and it dispatches the first. -/
def twoArrivals : List CanRxEvent :=
  [.thread, .thread, .thread, .arrive .zero, .arrive .zero, .thread, .thread, .thread, .thread]

theorem handshake_of_timely_two : HandshakeOk (canRxMachine.run .opened twoArrivals) :=
  (handshake_of_timely twoArrivals (by decide +kernel)).left

/-- A frame arrives before the thread has registered the callback. -/
def earlyArrival : List CanRxEvent := [.arrive .zero, .thread, .thread, .thread]

/-- Seventeen frames arrive before the thread reads, which then works them off. -/
def burstOfSeventeen : List CanRxEvent :=
  [.thread, .thread] ++ List.replicate 17 (.arrive .zero) ++ List.replicate 120 .thread

/-- The early frame is stranded, and after the burst the last frame is dispatched twice. -/
theorem not_handshakeOk_untimely :
    ¬ HandshakeOk (canRxMachine.run .opened earlyArrival) ∧
      ¬ HandshakeOk (canRxMachine.run .opened burstOfSeventeen) := by
  decide +kernel

end RobomasterFirmware.Applications
