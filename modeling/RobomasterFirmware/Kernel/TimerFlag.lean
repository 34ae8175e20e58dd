import RobomasterFirmware.Kernel.Calendar

/-!
# The Activated Flag

`rt_timer_stop` asks `RT_TIMER_FLAG_ACTIVATED` whether a timer runs, and not the list. After a
timeout `rt_timer_check` clears the flag of a timer that is not periodic, also where its own
timeout function has started it again: the timer is in the list then and will have its timeout, but
it cannot be stopped.

## Main Results
- `rtTimer_flag_iff`: the flags tell which timers run exactly as long as no timeout function leaves
  its timer in the list and not periodic
-/

namespace RobomasterFirmware.Kernel

open RobomasterFirmware.Lib

variable {ι : Type*}

/-- The timer is not detached, which leaves its flag as it is. -/
def TimerOp.Attached : TimerOp ι → Prop
  | detach _ => False
  | _ => True

/-- Nobody detaches a timer. -/
def TimerEvent.Attached : TimerEvent ι → Prop
  | tick => True
  | op o => o.Attached
  | check timeoutFunc => ∀ o ∈ timeoutFunc, o.Attached

namespace TimerSystem

/-! ## Flags and list -/

/-- The flag of a timer tells whether it is in the list. -/
def Agrees (s : TimerSystem ι) (i : ι) : Prop :=
  i ∈ s.rtTimerList ↔ (s.timer i).activated = true

/-- The flags tell which timers run, unless an assertion has failed in the check. -/
def FlagsAgree (s : TimerSystem ι) : Prop := s.phase ≠ .stuck → ∀ i, s.Agrees i

variable [DecidableEq ι] {s s' s'' : TimerSystem ι} {i j : ι}

/-- If the event is a timeout, its function leaves the timer periodic or out of the list, or an
assertion fails in it. -/
def NotRestarted (s : TimerSystem ι) : TimerEvent ι → Prop
  | .check timeoutFunc =>
    ∀ t ∈ s.rtTimerList.head?, s.phase = .checking →
      s.rtTick - (s.timer t).timeoutTick < tickHalf →
        (timeoutFunc.foldl op (s.remove t)).phase ≠ .stuck →
          ((timeoutFunc.foldl op (s.remove t)).timer t).periodic = true ∨
            t ∉ (timeoutFunc.foldl op (s.remove t)).rtTimerList
  | _ => True

instance decidableNotRestarted (s : TimerSystem ι) : ∀ e, Decidable (s.NotRestarted e)
  | .check _ => inferInstanceAs (Decidable (∀ t ∈ s.rtTimerList.head?, _ → _ → _ → _ ∨ _))
  | .tick | .op _ => isTrue trivial

omit [DecidableEq ι] in
theorem perm_insertTimer (timer : ι → RtTimer) (i : ι) (list : List ι) :
    (insertTimer timer i list).Perm (i :: list) := by
  -- induction on the list: the timer is put before some element, or at the end
  induction list with
  | nil => rfl
  | cons t list ih =>
    unfold insertTimer
    split
    · exact (ih.cons t).trans (List.Perm.swap i t list)
    · split
      · rfl
      · exact (ih.cons t).trans (List.Perm.swap i t list)

/-- What an operation does to the flag and the place of a timer: it brings them together, or leaves
both as they are. -/
def Settled (s s' : TimerSystem ι) (j : ι) : Prop :=
  s'.Agrees j ∨ ((j ∈ s'.rtTimerList ↔ j ∈ s.rtTimerList) ∧
    (s'.timer j).activated = (s.timer j).activated)

omit [DecidableEq ι] in
theorem Settled.agrees (h : Settled s s' j) (hs : s.Agrees j) : s'.Agrees j := by
  rcases h with h | ⟨hmem, hactivated⟩
  · exact h
  · rwa [Agrees, hmem, hactivated]

omit [DecidableEq ι] in
theorem Settled.activated (h : Settled s s' j)
    (hs : j ∈ s.rtTimerList → (s.timer j).activated = true) :
    j ∈ s'.rtTimerList → (s'.timer j).activated = true := by
  rcases h with h | ⟨hmem, hactivated⟩
  · exact h.mp
  · rwa [hmem, hactivated]

omit [DecidableEq ι] in
theorem Settled.trans (h : Settled s s' j) (h' : Settled s' s'' j) : Settled s s'' j := by
  -- once together they stay so, else the second step decides
  rcases h with h | ⟨hmem, hactivated⟩
  · exact .inl (h'.agrees h)
  · rcases h' with h' | ⟨hmem', hactivated'⟩
    · exact .inl h'
    · exact .inr ⟨hmem'.trans hmem, hactivated'.trans hactivated⟩

omit [DecidableEq ι] in
theorem settled_refl (s : TimerSystem ι) (j : ι) : Settled s s j := .inr ⟨Iff.rfl, rfl⟩

omit [DecidableEq ι] in
theorem settled_assertFailed (s : TimerSystem ι) (j : ι) : Settled s s.assertFailed j := by
  unfold assertFailed
  split
  · exact .inr ⟨Iff.rfl, rfl⟩
  · exact settled_refl s j

theorem settled_modify (s : TimerSystem ι) (i : ι) {f : RtTimer → RtTimer}
    (hf : ∀ t, (f t).activated = t.activated) (j : ι) : Settled s (s.modify i f) j := by
  refine .inr ⟨Iff.rfl, ?_⟩
  -- the change does not touch the flag
  rcases eq_or_ne j i with rfl | hne
  · rw [timer_modify_self, hf]
  · rw [timer_modify_of_ne hne]

theorem agrees_removed (hnodup : s.rtTimerList.Nodup) (i : ι) : (s.startRemove i).Agrees i := by
  unfold startRemove
  -- unlinked and without its flag
  rw [Agrees, deactivate, timer_modify_self]
  exact iff_of_false hnodup.not_mem_erase Bool.false_ne_true

theorem settled_removed (hnodup : s.rtTimerList.Nodup) (i j : ι) :
    Settled s (s.startRemove i) j := by
  -- the timer itself, or another one, which keeps place and flag
  rcases eq_or_ne j i with rfl | hne
  · exact .inl (agrees_removed hnodup j)
  · refine .inr ⟨List.mem_erase_of_ne hne, ?_⟩
    rw [startRemove, deactivate, timer_modify_of_ne hne]
    rfl

/-- **Step lemma** for `rt_timer_start`: whether it accepts the delay or not, the flag is right. -/
theorem agrees_start (hnodup : s.rtTimerList.Nodup) (i : ι) : (s.rtTimerStart i).Agrees i := by
  have hoff := agrees_removed hnodup i
  unfold rtTimerStart
  dsimp only
  -- accepted: in the list and with its flag; refused: in neither state
  split
  · refine iff_of_true ((perm_insertTimer ..).mem_iff.mpr List.mem_cons_self) ?_
    rw [startInsert, timer_modify_self]
  · exact (settled_assertFailed _ i).agrees hoff

/-- **Step lemma** for `rt_timer_start`. -/
theorem settled_start (hnodup : s.rtTimerList.Nodup) (i j : ι) :
    Settled s (s.rtTimerStart i) j := by
  rcases eq_or_ne j i with rfl | hne
  · exact .inl (agrees_start hnodup j)
  refine (settled_removed hnodup i j).trans ?_
  unfold rtTimerStart
  dsimp only
  -- the second section links one timer more, and it is not this one
  generalize s.startRemove i = s'
  split
  · refine .inr ⟨(perm_insertTimer ..).mem_iff.trans (List.mem_cons.trans (or_iff_right hne)), ?_⟩
    rw [startInsert, timer_modify_of_ne hne]
    dsimp only
    rw [startTimeout, timer_modify_of_ne hne]
  · exact settled_assertFailed s' j

/-- **Step lemma** for the use of a timer. -/
theorem settled_op (hnodup : s.rtTimerList.Nodup) {o : TimerOp ι} (ho : o.Attached) (j : ι) :
    Settled s (s.op o) j := by
  unfold op
  split
  · exact settled_refl s j
  · exact settled_start hnodup _ j
  · unfold rtTimerStop
    split
    · exact settled_removed hnodup _ j
    · exact settled_refl s j
  -- `rt_timer_detach` unlinks and leaves the flag
  · exact absurd ho id
  · exact settled_modify s _ (by intro _; rfl) j
  · exact settled_modify s _ (by intro _; rfl) j
  · exact settled_modify s _ (by intro _; rfl) j

omit [DecidableEq ι] in
theorem nodup_of_refines {c : Calendar ι} (h : Refines s c) : s.rtTimerList.Nodup := by
  rw [h.list]
  exact h.valid.single

theorem settled_foldl_op {c : Calendar ι} (h : Refines s c) {os : List (TimerOp ι)}
    (hos : ∀ o ∈ os, o.Attached) (j : ι) : Settled s (os.foldl op s) j := by
  -- the list stays free of duplicates from use to use, by the refinement
  induction os generalizing s c with
  | nil => exact settled_refl s j
  | cons o os ih =>
    obtain ⟨ho, hos⟩ := List.forall_mem_cons.mp hos
    exact (settled_op (nodup_of_refines h) ho j).trans (ih (h.op o) hos)

/-! ## The end of a timeout -/

theorem finish_of_ne_stuck (hphase : s.phase ≠ .stuck) (i : ι) :
    s.finish i =
      if (s.timer i).periodic && (s.timer i).activated then (s.deactivate i).rtTimerStart i
      else s.deactivate i := by
  unfold finish
  split
  · contradiction
  · rfl

/-- The other timers. -/
theorem settled_finish_of_ne (hnodup : s.rtTimerList.Nodup) (hne : j ≠ i) :
    Settled s (s.finish i) j := by
  have hoff : Settled s (s.deactivate i) j := by
    refine .inr ⟨Iff.rfl, ?_⟩
    rw [deactivate, timer_modify_of_ne hne]
  unfold finish
  split
  · exact settled_refl s j
  -- the end of a timeout touches the flag of its own timer only
  · split
    · exact hoff.trans (settled_start (s := s.deactivate i) hnodup i j)
    · exact hoff

/-- The timer itself: its flag tells the truth if it is periodic or not in the list. -/
theorem agrees_finish_iff (hnodup : s.rtTimerList.Nodup) (hphase : s.phase ≠ .stuck)
    (hactivated : i ∈ s.rtTimerList → (s.timer i).activated = true) :
    (s.finish i).Agrees i ↔ (s.timer i).periodic = true ∨ i ∉ s.rtTimerList := by
  rw [finish_of_ne_stuck hphase]
  cases hperiodic : (s.timer i).periodic with
  | false =>
    -- oneshot: the flag is cleared, wherever the timer is by now
    rw [if_neg (by simp), Agrees, deactivate, timer_modify_self]
    simp [modify]
  | true =>
    refine iff_of_true ?_ (.inl rfl)
    cases hflag : (s.timer i).activated with
    | false =>
      -- stopped by its function: without its flag it is not in the list
      have hnot : i ∉ s.rtTimerList := by
        intro hi
        rw [hactivated hi] at hflag
        contradiction
      rw [if_neg (by simp), Agrees, deactivate, timer_modify_self]
      exact iff_of_false hnot Bool.false_ne_true
    | true =>
      -- still running: it is started again
      rw [if_pos (by simp)]
      exact agrees_start (s := s.deactivate i) hnodup i

/-- All timers at the end of a timeout. -/
theorem flagsAgree_finish_iff (hnodup : s.rtTimerList.Nodup) (hphase : s.phase ≠ .stuck)
    (hactivated : i ∈ s.rtTimerList → (s.timer i).activated = true)
    (hothers : ∀ j, j ≠ i → s.Agrees j) :
    (s.finish i).FlagsAgree ↔ (s.timer i).periodic = true ∨ i ∉ s.rtTimerList := by
  have hself := agrees_finish_iff hnodup hphase hactivated
  -- from left to right only the timer itself matters
  constructor
  · intro h
    cases hperiodic : (s.timer i).periodic with
    | true => exact .inl rfl
    | false =>
      -- the timer is not started, so no assertion fails
      have hfinish : s.finish i = s.deactivate i := by
        rw [finish_of_ne_stuck hphase, if_neg (by simp [hperiodic])]
      rw [← hperiodic, ← hself]
      rw [hfinish] at h ⊢
      exact h hphase i
  · intro h _ j
    rcases eq_or_ne j i with rfl | hne
    · exact hself.mpr h
    · exact (settled_finish_of_ne hnodup hne).agrees (hothers j hne)

/-! ## Runs -/

/-- **Step lemma** for a timeout. -/
theorem flagsAgree_timeout_iff {c : Calendar ι} (h : Refines s c) (hs : ∀ i, s.Agrees i) (t : ι)
    {timeoutFunc : List (TimerOp ι)} (hfunc : ∀ o ∈ timeoutFunc, o.Attached) :
    ((timeoutFunc.foldl op (s.remove t)).finish t).FlagsAgree ↔
      ((timeoutFunc.foldl op (s.remove t)).phase ≠ .stuck →
        ((timeoutFunc.foldl op (s.remove t)).timer t).periodic = true ∨
          t ∉ (timeoutFunc.foldl op (s.remove t)).rtTimerList) := by
  have hrefines := (h.remove t).foldl_op timeoutFunc
  have hsettled := settled_foldl_op (h.remove t) hfunc
  generalize timeoutFunc.foldl op (s.remove t) = s' at hrefines hsettled ⊢
  -- off the list at first, so if it is there now its function has started it
  have hactivated : t ∈ s'.rtTimerList → (s'.timer t).activated = true :=
    (hsettled t).activated fun ht => absurd ht (nodup_of_refines h).not_mem_erase
  have hothers : ∀ j, j ≠ t → s'.Agrees j := by
    intro j hne
    exact (hsettled j).agrees ((List.mem_erase_of_ne hne).trans (hs j))
  -- an assertion in the function ends the check, and nothing is claimed
  by_cases hstuck : s'.phase = .stuck
  · have hfinish : s'.finish t = s' := by
      unfold finish
      rw [hstuck]
    rw [hfinish]
    exact iff_of_true (fun hne => absurd hstuck hne) fun hne => absurd hstuck hne
  · rw [flagsAgree_finish_iff (nodup_of_refines hrefines) hstuck hactivated hothers]
    exact (imp_iff_right hstuck).symm

/-- **Step lemma.** Where the flags are right, they stay right exactly if no timeout function has
left its timer in the list and not periodic. -/
theorem flagsAgree_next_iff {c : Calendar ι} (h : Refines s c) (hs : s.FlagsAgree)
    {e : TimerEvent ι} (he : e.Attached) :
    ((timerMachine ι).next s e).FlagsAgree ↔ s.NotRestarted e := by
  -- a use outside a timeout leaves the flags right
  have hop : ∀ o, o.Attached → (∀ i, s.Agrees i) →
      ((s.op o).FlagsAgree ↔ s.NotRestarted (.op o)) :=
    fun o ho hagrees => iff_of_true
      (fun _ i => (settled_op (nodup_of_refines h) ho i).agrees (hagrees i)) trivial
  unfold Machine.next timerMachine
  dsimp only
  cases hphase : s.phase with
  | idle =>
    have hagrees : ∀ i, s.Agrees i := hs (by simp [hphase])
    cases e with
    | tick => exact iff_of_true (fun _ => hagrees) trivial
    | op o => exact hop o he hagrees
    | check timeoutFunc => exact iff_of_true hs fun _ _ hcheck => by simp [hphase] at hcheck
  | checking =>
    have hagrees : ∀ i, s.Agrees i := hs (by simp [hphase])
    cases e with
    | tick => exact iff_of_true hs trivial
    | op o => exact hop o he hagrees
    | check timeoutFunc =>
      dsimp only
      cases hlist : s.rtTimerList with
      | nil =>
        rw [rtTimerCheck_of_nil hlist]
        exact iff_of_true (fun _ => hagrees) fun t ht => by simp [hlist] at ht
      | cons t list =>
        rw [rtTimerCheck_of_cons hlist]
        -- only a timer that is due is taken off, and only its function can spoil the flag
        by_cases hdue : s.rtTick - (s.timer t).timeoutTick < tickHalf
        · rw [if_pos hdue, flagsAgree_timeout_iff h hagrees t he]
          simp [NotRestarted, hlist, hphase, hdue]
        · rw [if_neg hdue]
          refine iff_of_true (fun _ => hagrees) ?_
          simp [NotRestarted, hlist, hdue]
  | stuck =>
    refine iff_of_true hs ?_
    cases e with
    | tick | op o => trivial
    | check timeoutFunc => exact fun _ _ hcheck => by simp [hphase] at hcheck

end TimerSystem

open TimerSystem in
/-- **Run lemma.** Nobody detaches a timer. The flags tell which timers run after every step of a
run, or an assertion has failed in a check, exactly if every timeout function of the run leaves its
timer periodic or out of the list, or fails an assertion. -/
theorem rtTimer_flag_iff [DecidableEq ι] (time : ι → UInt32) (periodic : ι → Bool)
    {es : List (TimerEvent ι)} (hes : ∀ e ∈ es, e.Attached) :
    (timerMachine ι).Along (fun s e => ((timerMachine ι).next s e).FlagsAgree)
        (.init time periodic) es ↔
      (timerMachine ι).Along NotRestarted (.init time periodic) es := by
  -- up to the first bad timeout the two conditions hold together
  refine Machine.along_congr (I := fun s => (∃ c, Refines s c) ∧ s.FlagsAgree)
    (fun s e hs he => ?_) (fun s e hs _ hnext => ?_) ⟨⟨_, refines_init time periodic⟩, ?_⟩ hes
  · obtain ⟨⟨c, hrefines⟩, hagree⟩ := hs
    exact flagsAgree_next_iff hrefines hagree he
  · obtain ⟨⟨c, hrefines⟩, -⟩ := hs
    exact ⟨⟨_, (hrefines.next e).1⟩, hnext⟩
  · exact fun _ i => iff_of_false List.not_mem_nil Bool.false_ne_true

/-- A timer whose timeout function starts and stops it. -/
theorem rtTimer_flag_iff_restarted :
    (timerMachine Unit).Along (fun s e => ((timerMachine Unit).next s e).FlagsAgree)
      (.init (fun _ => 1) fun _ => false)
      [.op (.start ()), .tick, .check [.start (), .stop ()], .check []] :=
  (rtTimer_flag_iff (fun _ => 1) (fun _ => false)
    (by simp [TimerEvent.Attached, TimerOp.Attached])).mpr (by decide)

/-- A timer that its timeout function starts again has its next timeout, though it is stopped. -/
example :
    (timerMachine Unit).trace (.init (fun _ => 1) fun _ => false)
      [.op (.start ()), .tick, .check [.start ()], .check [], .op (.stop ()), .tick, .check []] =
      [.tick, .timeout (), .tick, .timeout ()] := by decide

end RobomasterFirmware.Kernel
