import RobomasterFirmware.Drivers.SerialInt

/-!
# The Console

`finsh_getchar` and `finsh_rx_ind` of `components/finsh/shell.c` over a serial device opened with
`RT_DEVICE_FLAG_INT_RX`. The shell reads one character after the other; when none is there it waits
for `rx_sem`, which the callback of the receive interrupt releases. An interrupt may come at any
point, also between the read that finds nothing and the wait.

`rt_sem_release` counts in 16 bits and does not check for an overflow.

## Main Results
- `finsh_conserved`: the shell reads the characters that arrive in order, and all of them exactly if
  no interrupt brings more than there is room for
- `finsh_not_stuck`: no wakeup is lost: while the shell gets its turns, it reads everything that
  waits
-/

namespace RobomasterFirmware.Drivers

open RobomasterFirmware.Lib
open RobomasterFirmware.Drivers.RtSerialRxFifo

/-! ## Model -/

/-- Where the shell is in `finsh_getchar`. -/
inductive FinshPc where
  /-- `rt_device_read(shell->device, -1, &ch, 1)` -/
  | read
  /-- `rt_sem_take(&shell->rx_sem, RT_WAITING_FOREVER)` -/
  | take
  /-- suspended in `rt_sem_take` -/
  | asleep
  deriving DecidableEq

/-- The receive buffer of the console, the value of `shell->rx_sem` and the shell. -/
structure FinshConsole where
  bufsz : UInt16
  rxFifo : RtSerialRxFifo
  rxSem : UInt16
  pc : FinshPc

namespace FinshConsole

/-- The shell has opened the console and begins to read. -/
def opened (bufsz : UInt16) : FinshConsole where
  bufsz := bufsz
  rxFifo := .opened
  rxSem := 0
  pc := .read

/-- `finsh_rx_ind`: `rt_sem_release` wakes the shell, or counts. -/
def finshRxInd (s : FinshConsole) : FinshConsole :=
  -- a waiting thread gets the permit at once, else the value grows (in 16 bits)
  match s.pc with
  | .asleep => { s with pc := .read }
  | _ => { s with rxSem := s.rxSem + 1 }

/-- The `RT_SERIAL_EVENT_RX_IND` case of `rt_hw_serial_isr`, with the characters that `getc` finds.
-/
def hwSerialIsr (s : FinshConsole) (chs : List UInt8) : FinshConsole :=
  let s := { s with rxFifo := chs.foldl (rxPut s.bufsz) s.rxFifo }
  if s.rxFifo.rxLength s.bufsz ≠ 0 then s.finshRxInd else s

/-- A step of `finsh_getchar`, and the character it returns. -/
def finshGetchar (s : FinshConsole) : FinshConsole × List UInt8 :=
  match s.pc with
  | .read =>
    match s.rxFifo.rxGet s.bufsz with
    | some (ch, f) => ({ s with rxFifo := f }, [ch])
    | none => ({ s with pc := .take }, [])
  | .take =>
    -- `rt_sem_take(&shell->rx_sem, RT_WAITING_FOREVER)`
    if s.rxSem > 0 then ({ s with rxSem := s.rxSem - 1, pc := .read }, [])
    else ({ s with pc := .asleep }, [])
  | .asleep => (s, [])

/-- The characters that wait. -/
def waiting (s : FinshConsole) : List UInt8 := contents s.bufsz s.rxFifo

end FinshConsole

/-- An interrupt finds characters, or the shell makes a step. -/
inductive FinshEvent where
  | rxInd (chs : List UInt8)
  | run

/-- The characters that arrive. -/
def FinshEvent.arrived : FinshEvent → List UInt8
  | rxInd chs => chs
  | run => []

/-- The console; it shows the characters that `finsh_getchar` returns. -/
def finshMachine : Machine FinshConsole FinshEvent UInt8 where
  step s
    | .rxInd chs => (s.hwSerialIsr chs, [])
    | .run => s.finshGetchar

namespace FinshConsole

variable {s : FinshConsole}

/-! ## The characters -/

@[simp] theorem bufsz_finshRxInd (s : FinshConsole) : s.finshRxInd.bufsz = s.bufsz := by
  unfold finshRxInd
  split <;> rfl

@[simp] theorem rxFifo_finshRxInd (s : FinshConsole) : s.finshRxInd.rxFifo = s.rxFifo := by
  unfold finshRxInd
  split <;> rfl

/-- The receive buffer holds a queue. -/
def Valid (s : FinshConsole) : Prop := Holds s.bufsz s.rxFifo s.waiting

theorem valid_of_holds {q : List UInt8} (h : Holds s.bufsz s.rxFifo q) :
    s.Valid ∧ s.waiting = q := by
  have heq : s.waiting = q := h.contents_eq
  exact ⟨by rwa [Valid, heq], heq⟩

theorem valid_opened {bufsz : UInt16} (hB : 0 < bufsz.toNat) :
    (opened bufsz).Valid ∧ (opened bufsz).waiting = [] :=
  valid_of_holds (s := opened bufsz) (holds_opened hB)

/-- **Step lemma** for the interrupt. -/
theorem Valid.hwSerialIsr (h : s.Valid) (chs : List UInt8) :
    (s.hwSerialIsr chs).Valid ∧
      (s.hwSerialIsr chs).waiting = chs.foldl (push (capacity s.bufsz)) s.waiting := by
  refine valid_of_holds ?_
  unfold FinshConsole.hwSerialIsr
  dsimp only
  -- the callback touches neither the buffer nor what waits in it
  split
  · rw [bufsz_finshRxInd, rxFifo_finshRxInd]
    exact h.foldl_rxPut chs
  · exact h.foldl_rxPut chs

/-- The moves of the shell. -/
inductive FinshMove (s : FinshConsole) : FinshConsole → List UInt8 → Prop
  | got (ch q f) (hpc : s.pc = .read) (hwait : s.waiting = ch :: q) (hf : Holds s.bufsz f q) :
    FinshMove s { s with rxFifo := f } [ch]
  | nothing (hpc : s.pc = .read) (hwait : s.waiting = []) : FinshMove s { s with pc := .take } []
  | taken (hpc : s.pc = .take) (hsem : s.rxSem ≠ 0) :
    FinshMove s { s with rxSem := s.rxSem - 1, pc := .read } []
  | suspended (hpc : s.pc = .take) (hsem : s.rxSem = 0) : FinshMove s { s with pc := .asleep } []
  | stay (hpc : s.pc = .asleep) : FinshMove s s []

theorem Valid.finshMove (h : s.Valid) : FinshMove s s.finshGetchar.1 s.finshGetchar.2 := by
  unfold FinshConsole.finshGetchar
  cases hpc : s.pc with
  | read =>
    have hholds : Holds s.bufsz s.rxFifo s.waiting := h
    -- `rt_device_read` returns a character exactly when one waits
    cases hq : s.waiting with
    | nil =>
      rw [hq] at hholds
      simp only [hholds.rxGet_nil]
      exact .nothing hpc hq
    | cons ch q =>
      rw [hq] at hholds
      obtain ⟨f, hsome, hf⟩ := hholds.rxGet_cons
      simp only [hsome]
      rw [← hpc]
      exact .got ch q f hpc hq hf
  | take =>
    dsimp only
    -- a permit is there, or the shell goes to sleep
    split
    · next hpos => exact .taken hpc fun hzero => UInt16.lt_irrefl 0 (hzero ▸ hpos)
    · next hzero => exact .suspended hpc (by simpa using hzero)
  | asleep => exact .stay hpc

/-- **Step lemma** for the shell: it takes the first character that waits, or none. -/
theorem Valid.move (h : s.Valid) {s' : FinshConsole} {chs : List UInt8}
    (hmove : FinshMove s s' chs) : s'.Valid ∧ chs ++ s'.waiting = s.waiting := by
  -- only a read moves a character, from the head of the queue to the shell
  cases hmove with
  | got ch q f hpc hwait hf =>
    obtain ⟨hvalid, hrest⟩ := valid_of_holds (s := { s with rxFifo := f }) hf
    refine ⟨hvalid, ?_⟩
    rw [hrest, hwait]
    rfl
  | nothing => exact ⟨h, rfl⟩
  | taken => exact ⟨h, rfl⟩
  | suspended => exact ⟨h, rfl⟩
  | stay => exact ⟨h, rfl⟩

/-- The interrupt brings no more than there is room for. -/
def Fits (s : FinshConsole) : FinshEvent → Prop
  | .rxInd chs => s.waiting.length + chs.length ≤ capacity s.bufsz
  | .run => True

instance (s : FinshConsole) : (e : FinshEvent) → Decidable (s.Fits e)
  | .rxInd chs => inferInstanceAs (Decidable (s.waiting.length + chs.length ≤ capacity s.bufsz))
  | .run => .isTrue trivial

theorem bufsz_next (s : FinshConsole) (e : FinshEvent) :
    (finshMachine.next s e).bufsz = s.bufsz := by
  cases e with
  | rxInd chs =>
    change (s.hwSerialIsr chs).bufsz = s.bufsz
    unfold FinshConsole.hwSerialIsr
    dsimp only
    split
    · exact bufsz_finshRxInd _
    · rfl
  | run =>
    change s.finshGetchar.1.bufsz = s.bufsz
    unfold FinshConsole.finshGetchar
    split
    · split <;> rfl
    · split <;> rfl
    · rfl

theorem Valid.next (h : s.Valid) (e : FinshEvent) : (finshMachine.next s e).Valid := by
  cases e with
  | rxInd chs => exact (h.hwSerialIsr chs).1
  | run => exact (h.move h.finshMove).1

/-- **Step lemma.** What a step returns and leaves waiting is part of what waited and what arrives,
and all of it exactly if there is room. -/
theorem Valid.conserved (h : s.Valid) (e : FinshEvent) :
    (finshMachine.emit s e ++ (finshMachine.next s e).waiting).Sublist (s.waiting ++ e.arrived) ∧
      (finshMachine.emit s e ++ (finshMachine.next s e).waiting = s.waiting ++ e.arrived ↔
        s.Fits e) := by
  cases e with
  | rxInd chs =>
    have hwait : (finshMachine.next s (.rxInd chs)).waiting =
        (s.waiting ++ chs).drop (s.waiting.length + chs.length - capacity s.bufsz) :=
      (h.hwSerialIsr chs).2.trans (foldl_push (Holds.length_le h) chs)
    change ([] ++ _).Sublist (s.waiting ++ chs) ∧ ([] ++ _ = s.waiting ++ chs ↔ _)
    -- what does not fit is taken from the head of the queue
    rw [List.nil_append, hwait, Fits]
    refine ⟨List.drop_sublist _ _, fun heq => ?_, fun hfits => ?_⟩
    · have hlen := congrArg List.length heq
      rw [List.length_drop, List.length_append] at hlen
      have hcap := capacity_pos (Nat.zero_lt_of_lt (Holds.getIndex_lt h))
      omega
    · rw [Nat.sub_eq_zero_of_le hfits, List.drop_zero]
  | run =>
    -- the shell neither loses nor adds a character
    have heq := (h.move h.finshMove).2
    change (s.finshGetchar.2 ++ s.finshGetchar.1.waiting).Sublist (s.waiting ++ []) ∧
      (s.finshGetchar.2 ++ s.finshGetchar.1.waiting = s.waiting ++ [] ↔ True)
    rw [List.append_nil, heq]
    exact ⟨List.Sublist.refl _, iff_of_true rfl trivial⟩

end FinshConsole

open FinshConsole in
/-- **Run lemma.** In every run the characters that the shell has read and those that still wait are
part of those that arrived, in order; and they are all of them exactly if no interrupt has brought
more than there was room for. -/
theorem finsh_conserved {bufsz : UInt16} (hB : 0 < bufsz.toNat) (es : List FinshEvent) :
    (finshMachine.trace (.opened bufsz) es ++
        (finshMachine.run (.opened bufsz) es).waiting).Sublist (es.flatMap FinshEvent.arrived) ∧
      (finshMachine.trace (.opened bufsz) es ++ (finshMachine.run (.opened bufsz) es).waiting =
          es.flatMap FinshEvent.arrived ↔ finshMachine.Along Fits (.opened bufsz) es) := by
  obtain ⟨hvalid, hnone⟩ := valid_opened hB
  -- nothing waits at first
  have hrun := Machine.conserved_of_step (I := Valid) (P := Fits)
    (fun _ e h => h.next e) (fun _ e h => (h.conserved e).1) (fun _ e h => (h.conserved e).2) hvalid
    es
  rwa [hnone, List.nil_append] at hrun

/-- The configured buffer; the shell reads between two interrupts. -/
theorem finsh_conserved_configured :
    finshMachine.trace (.opened 64) [.rxInd [104, 105], .run, .rxInd [13], .run] ++
        (finshMachine.run (.opened 64) [.rxInd [104, 105], .run, .rxInd [13], .run]).waiting =
      [.rxInd [104, 105], .run, .rxInd [13], .run].flatMap FinshEvent.arrived :=
  (finsh_conserved (show 0 < (64 : UInt16).toNat by decide) _).2.mpr (by decide)

/-! ## Wakeups -/

namespace FinshConsole

variable {s : FinshConsole}

/-- Who waits has nothing to read, and who is about to wait and has will not have to. -/
structure Awake (s : FinshConsole) : Prop where
  valid : s.Valid
  cells : 1 < s.bufsz.toNat
  take : s.pc = .take → s.waiting ≠ [] → s.rxSem ≠ 0
  asleep : s.pc = .asleep → s.waiting = []

/-- The interrupt does not find the shell about to wait while the semaphore is at its maximum. -/
def NoOverflow (s : FinshConsole) : FinshEvent → Prop
  | .rxInd _ => s.pc = .take → s.rxSem ≠ 65535
  | .run => True

theorem awake_opened {bufsz : UInt16} (hB : 1 < bufsz.toNat) : (opened bufsz).Awake where
  valid := (valid_opened (Nat.zero_lt_of_lt hB)).1
  cells := hB
  take := (nomatch ·)
  asleep := (nomatch ·)

theorem add_one_ne_zero {x : UInt16} (h : x ≠ 65535) : x + 1 ≠ 0 := by
  intro hzero
  refine h ?_
  rw [← UInt16.add_sub_cancel x 1, hzero]
  rfl

/-- **Step lemma** for the interrupt. -/
theorem Awake.hwSerialIsr (h : s.Awake) {chs : List UInt8} (hno : s.NoOverflow (.rxInd chs)) :
    (s.hwSerialIsr chs).Awake := by
  obtain ⟨hvalid, -⟩ := h.valid.hwSerialIsr chs
  have hcells : 1 < (s.hwSerialIsr chs).bufsz.toNat := by
    rw [show (s.hwSerialIsr chs).bufsz = s.bufsz from bufsz_next s (.rxInd chs)]
    exact h.cells
  have hholds : Holds s.bufsz (chs.foldl (rxPut s.bufsz) s.rxFifo) _ :=
    Holds.foldl_rxPut h.valid chs
  -- the callback is called with the number of characters that wait
  have hlength := hholds.rxLength h.cells
  by_cases hnone : (chs.foldl (rxPut s.bufsz) s.rxFifo).rxLength s.bufsz = 0
  · -- nothing waits, and nobody is woken
    have hisr : s.hwSerialIsr chs = { s with rxFifo := chs.foldl (rxPut s.bufsz) s.rxFifo } :=
      if_neg (not_not.mpr hnone)
    rw [hnone] at hlength
    have hempty : (s.hwSerialIsr chs).waiting = [] := by
      rw [(h.valid.hwSerialIsr chs).2]
      exact List.length_eq_zero_iff.mp hlength.symm
    exact ⟨hvalid, hcells, fun _ hne => absurd hempty hne, fun _ => hempty⟩
  · have hisr : s.hwSerialIsr chs =
        { s with rxFifo := chs.foldl (rxPut s.bufsz) s.rxFifo }.finshRxInd := if_pos hnone
    rw [hisr] at hvalid hcells ⊢
    unfold finshRxInd at hvalid hcells ⊢
    cases hpc : s.pc with
    -- the shell will read before it waits
    | read =>
      simp only [hpc] at hvalid hcells ⊢
      exact ⟨hvalid, hcells, (nomatch ·), (nomatch ·)⟩
    -- the race: the buffer was found empty, and the permit comes before the wait
    | take =>
      simp only [hpc] at hvalid hcells ⊢
      exact ⟨hvalid, hcells, fun _ _ => add_one_ne_zero (hno hpc), (nomatch ·)⟩
    -- the shell is woken and reads
    | asleep =>
      simp only [hpc] at hvalid hcells ⊢
      exact ⟨hvalid, hcells, (nomatch ·), (nomatch ·)⟩

/-- **Step lemma** for the shell. -/
theorem Awake.move (h : s.Awake) {s' : FinshConsole} {chs : List UInt8}
    (hmove : FinshMove s s' chs) : s'.Awake := by
  have hvalid := (h.valid.move hmove).1
  cases hmove with
  | got ch q f hpc =>
    exact ⟨hvalid, h.cells, fun htake => absurd (hpc.symm.trans htake) (by decide),
      fun hasleep => absurd (hpc.symm.trans hasleep) (by decide)⟩
  -- on the way to the wait nothing waits yet
  | nothing hpc hwait => exact ⟨hvalid, h.cells, fun _ hne => absurd hwait hne, (nomatch ·)⟩
  | taken => exact ⟨hvalid, h.cells, (nomatch ·), (nomatch ·)⟩
  -- without a permit nothing has come in between
  | suspended hpc hsem =>
    refine ⟨hvalid, h.cells, (nomatch ·), fun _ => ?_⟩
    by_contra hne
    exact h.take hpc hne hsem
  | stay => exact h

theorem Awake.next (h : s.Awake) {e : FinshEvent} (he : s.NoOverflow e) :
    (finshMachine.next s e).Awake := by
  cases e with
  | rxInd chs => exact h.hwSerialIsr he
  | run => exact h.move h.valid.finshMove

/-- The turns that the shell needs to read what waits. -/
def turns (s : FinshConsole) : ℕ :=
  if s.waiting = [] then 0 else s.waiting.length + if s.pc = .take then 1 else 0

theorem turns_le (s : FinshConsole) : s.turns ≤ s.waiting.length + 1 := by
  unfold turns
  split_ifs <;> omega

theorem Awake.turns_move (h : s.Awake) {s' : FinshConsole} {chs : List UInt8}
    (hmove : FinshMove s s' chs) : s'.turns ≤ s.turns - 1 := by
  have hwait := (h.valid.move hmove).2
  unfold turns
  by_cases hnil : s'.waiting = []
  · rw [if_pos hnil]
    exact Nat.zero_le _
  · cases hmove with
    -- one character less
    | got ch q f hpc hcons hf =>
      have hlen := congrArg List.length hwait
      rw [List.length_append, List.length_singleton] at hlen
      have hread : s.pc ≠ .take := by
        rw [hpc]
        decide
      rw [if_neg hnil, if_neg hread, if_neg (by rw [hcons]; exact List.cons_ne_nil _ _)]
      omega
    | nothing hpc hempty => exact absurd hempty hnil
    -- the wait is over, and the next turn reads
    | taken hpc =>
      rw [if_neg hnil, if_neg (show s.waiting ≠ [] from hnil), hpc]
      simp only [reduceCtorEq, if_false, if_true]
      exact le_of_eq rfl
    -- the shell does not sleep while something waits
    | suspended hpc hsem => exact absurd hsem (h.take hpc hnil)
    | stay hpc => exact absurd (h.asleep hpc) hnil

/-- **Run lemma.** The shell reads everything that waits in that many turns, and then nothing. -/
theorem Awake.trace_run (h : s.Awake) {k : ℕ} (hk : s.turns ≤ k) :
    finshMachine.trace s (List.replicate k .run) = s.waiting := by
  -- induction on the turns: each brings the shell one nearer to the end of the queue
  induction k generalizing s with
  | zero =>
    unfold turns at hk
    split at hk
    · next hnil => exact hnil.symm
    · next hne =>
      have hpos := List.length_pos_iff.mpr hne
      omega
  | succ k ih =>
    have hmove := h.valid.finshMove
    have hless : (finshMachine.next s .run).turns ≤ s.turns - 1 := h.turns_move hmove
    rw [List.replicate_succ, Machine.trace_cons, ← (h.valid.move hmove).2]
    exact congrArg (s.finshGetchar.2 ++ ·) (ih (h.move hmove) (by omega))

end FinshConsole

open FinshConsole in
/-- **Run lemma.** On a buffer of two cells or more no wakeup is lost: after every run in which the
semaphore does not overflow behind the shell's back, the shell is not asleep while a character
waits, and as many turns as characters wait, and one more, let it read them all. -/
theorem finsh_not_stuck {bufsz : UInt16} (hB : 1 < bufsz.toNat) {es : List FinshEvent}
    (hes : finshMachine.Along NoOverflow (.opened bufsz) es) {k : ℕ}
    (hk : (finshMachine.run (.opened bufsz) es).waiting.length + 1 ≤ k) :
    ((finshMachine.run (.opened bufsz) es).pc = .asleep →
        (finshMachine.run (.opened bufsz) es).waiting = []) ∧
      finshMachine.trace (finshMachine.run (.opened bufsz) es) (List.replicate k .run) =
        (finshMachine.run (.opened bufsz) es).waiting := by
  -- the invariant holds along the run, up to the overflow that is excluded
  have hawake : (finshMachine.run (.opened bufsz) es).Awake :=
    Machine.run_of_along (I := Awake) (fun _ _ h he => h.next he) (awake_opened hB) hes
  exact ⟨hawake.asleep, hawake.trace_run ((turns_le _).trans hk)⟩

/-- The interrupt comes after the read that finds nothing and before the wait. -/
theorem finsh_not_stuck_configured :
    finshMachine.trace (finshMachine.run (.opened 64) [.run, .rxInd [104, 105]])
        (List.replicate 3 .run) =
      (finshMachine.run (.opened 64) [.run, .rxInd [104, 105]]).waiting :=
  (finsh_not_stuck (show 1 < (64 : UInt16).toNat by decide)
    (show finshMachine.Along FinshConsole.NoOverflow (.opened 64) [.run, .rxInd [104, 105]] from
      ⟨trivial, fun _ => by decide, trivial⟩) (by decide)).2

end RobomasterFirmware.Drivers
