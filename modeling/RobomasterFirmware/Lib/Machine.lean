import Mathlib.Data.List.Basic
import Mathlib.Data.List.Forall2

/-!
# Reactive Machines

A deterministic machine reads one event at a time, moves to a new state and emits a list of
observations. Everything here is generic in the state, the events and the observations: the
firmware's components instantiate it with their own step functions, and every statement about
"every run, in any order and of any length" goes through the rules of this file.

## Contents
- `run` and `trace`: the state reached and the observations emitted by a list of events
- `Along`: a condition that holds at every step of a run
- invariant rules (`run_invariant`, `run_of_along`, `along_congr`) and the latch rule
  `run_iff_along`
- the history rule `run_history`: what the state has to do with everything emitted so far
- the account rule `countP_trace_add_le`: what every step pays for, a run cannot do too often
- the round rule `run_flatten_eq_zero`: work that no step adds to, and every round does some of,
  gets done
- the monitor rule `monitor_of_along`: a view of the state that follows a monitor of the
  observations
- the two-run rule `trace_related`: a relation between two states that every pair of related
  events preserves also relates everything the two runs emit
- the simulation rule `simulates_of_along`: along a condition, an abstract machine that matches
  every step emits the same trace
- the component rule `exists_run_of_step`: if every step is a run of another machine for a part of
  the state, so is every run
-/

namespace RobomasterFirmware.Lib

universe u v w x y

/-- A deterministic reactive machine over states `σ`, events `ε` and observations `ω`. -/
structure Machine (σ : Type u) (ε : Type v) (ω : Type w) where
  /-- The next state and what the step emits. -/
  step : σ → ε → σ × List ω

namespace Machine

variable {σ : Type u} {ε : Type v} {ω : Type w} (m : Machine σ ε ω)

/-- The state after one event. -/
def next (s : σ) (e : ε) : σ := (m.step s e).1

/-- The observations of one event. -/
def emit (s : σ) (e : ε) : List ω := (m.step s e).2

/-- The state after a list of events. -/
def run (s : σ) (es : List ε) : σ := es.foldl m.next s

/-- The observations of a list of events, in order. -/
def trace : σ → List ε → List ω
  | _, [] => []
  | s, e :: es => m.emit s e ++ trace (m.next s e) es

@[simp] theorem run_nil (s : σ) : m.run s [] = s := rfl

@[simp] theorem run_cons (s : σ) (e : ε) (es : List ε) :
    m.run s (e :: es) = m.run (m.next s e) es := rfl

@[simp] theorem run_append (s : σ) (es fs : List ε) :
    m.run s (es ++ fs) = m.run (m.run s es) fs := List.foldl_append

@[simp] theorem trace_nil (s : σ) : m.trace s [] = [] := rfl

@[simp] theorem trace_cons (s : σ) (e : ε) (es : List ε) :
    m.trace s (e :: es) = m.emit s e ++ m.trace (m.next s e) es := rfl

theorem trace_append (s : σ) (es fs : List ε) :
    m.trace s (es ++ fs) = m.trace s es ++ m.trace (m.run s es) fs := by
  -- Induct on the first part.
  induction es generalizing s with
  | nil => rfl
  | cons e es ih => simp [ih]

/-! ## Conditions along a run -/

/-- `m.Along P s es`: the condition `P` holds at every step of the run of `es` from `s`. -/
def Along (P : σ → ε → Prop) : σ → List ε → Prop
  | _, [] => True
  | s, e :: es => P s e ∧ Along P (m.next s e) es

variable {m} {P Q : σ → ε → Prop}

@[simp] theorem along_nil (s : σ) : m.Along P s [] := trivial

@[simp] theorem along_cons (s : σ) (e : ε) (es : List ε) :
    m.Along P s (e :: es) ↔ P s e ∧ m.Along P (m.next s e) es := Iff.rfl

theorem along_append (s : σ) (es fs : List ε) :
    m.Along P s (es ++ fs) ↔ m.Along P s es ∧ m.Along P (m.run s es) fs := by
  induction es generalizing s with
  | nil => simp
  | cons e es ih => simp [ih, and_assoc]

/-- A condition holds along a run exactly when it holds at every point of it. -/
theorem along_iff_forall (s : σ) (es : List ε) :
    m.Along P s es ↔ ∀ pre e post, es = pre ++ e :: post → P (m.run s pre) e := by
  constructor
  · rintro h pre e post rfl
    -- the step at `e` starts in the state that `pre` leads to
    exact ((along_append s pre (e :: post)).mp h).2.1
  · intro h
    induction es generalizing s with
    | nil => trivial
    | cons e es ih =>
      -- points of the tail are points of the whole list behind `e`
      refine ⟨h [] e es rfl, ih (m.next s e) ?_⟩
      rintro pre f post rfl
      exact h (e :: pre) f post rfl

/-- A condition on the events alone. -/
theorem along_of_forall {Q : ε → Prop} {es : List ε} (h : ∀ e ∈ es, Q e) (s : σ) :
    m.Along (fun _ e => Q e) s es := by
  rw [along_iff_forall]
  rintro pre e post rfl
  exact h e (List.mem_append_right pre List.mem_cons_self)

instance decidableAlong [∀ s e, Decidable (P s e)] :
    (s : σ) → (es : List ε) → Decidable (m.Along P s es)
  | _, [] => .isTrue trivial
  | s, e :: es =>
    haveI := decidableAlong (m.next s e) es
    inferInstanceAs (Decidable (P s e ∧ m.Along P (m.next s e) es))

/-! ## Invariant rules -/

/-- What every step preserves holds after every run. -/
theorem run_invariant {I : σ → Prop} (hstep : ∀ s e, I s → I (m.next s e)) {s : σ} (hs : I s)
    (es : List ε) : I (m.run s es) := by
  -- Induct on the events; the first step keeps `I`, the others start from its state.
  induction es generalizing s with
  | nil => exact hs
  | cons e es ih => exact ih (hstep s e hs)

/-- What every step that meets `P` preserves holds after every run whose steps all meet `P`. -/
theorem run_of_along {I : σ → Prop} (hstep : ∀ s e, I s → P s e → I (m.next s e)) {s : σ}
    (hs : I s) {es : List ε} (h : m.Along P s es) : I (m.run s es) := by
  induction es generalizing s with
  | nil => exact hs
  | cons e es ih => exact ih (hstep s e hs h.1) h.2

/-- Under an invariant, two conditions that agree at every step by some events agree along every run
of such events. -/
theorem along_congr {I : σ → Prop} {A : ε → Prop} (hPQ : ∀ s e, I s → A e → (P s e ↔ Q s e))
    (hstep : ∀ s e, I s → A e → P s e → I (m.next s e)) {s : σ} (hs : I s) {es : List ε}
    (hes : ∀ e ∈ es, A e) : m.Along P s es ↔ m.Along Q s es := by
  induction es generalizing s with
  | nil => simp
  | cons e es ih =>
    obtain ⟨he, hes⟩ := List.forall_mem_cons.mp hes
    -- the invariant reaches the next state only where the first condition held
    simp only [along_cons, hPQ s e hs he]
    exact and_congr_right fun hQ => ih (hstep s e hs he ((hPQ s e hs he).mpr hQ)) hes

/-- **Latch rule.** If a step keeps `G` exactly where `P` holds, and never restores it, then a run
ends with `G` exactly if it began so and all its steps met `P`. -/
theorem run_iff_along {I G : σ → Prop} (hstep : ∀ s e, I s → I (m.next s e))
    (hlatch : ∀ s e, I s → (G (m.next s e) ↔ G s ∧ P s e)) {s : σ} (hs : I s) (es : List ε) :
    G (m.run s es) ↔ G s ∧ m.Along P s es := by
  -- `G` at the end means `G` after the first step, which is `G` before it and `P` at it.
  induction es generalizing s with
  | nil => simp
  | cons e es ih => rw [run_cons, ih (hstep s e hs), hlatch s e hs, along_cons, and_assoc]

/-- Under an invariant, what every step emits a run emits. -/
theorem forall_mem_trace {I : σ → Prop} {Q : ω → Prop}
    (hemit : ∀ s e, I s → ∀ o ∈ m.emit s e, Q o) (hstep : ∀ s e, I s → I (m.next s e)) {s : σ}
    (hs : I s) (es : List ε) : ∀ o ∈ m.trace s es, Q o := by
  induction es generalizing s with
  | nil => exact List.forall_mem_nil _
  | cons e es ih =>
    intro o ho
    rcases List.mem_append.mp ho with ho | ho
    · exact hemit s e hs o ho
    · exact ih (hstep s e hs) o ho

/-- Along a run whose steps emit what their events alone determine, the trace is put together from
the events. -/
theorem trace_eq_flatMap_of_along {I : σ → Prop} {f : ε → List ω}
    (hemit : ∀ s e, I s → P s e → m.emit s e = f e)
    (hstep : ∀ s e, I s → P s e → I (m.next s e)) {s : σ} (hs : I s) {es : List ε}
    (h : m.Along P s es) : m.trace s es = es.flatMap f := by
  induction es generalizing s with
  | nil => rfl
  | cons e es ih =>
    rw [trace_cons, List.flatMap_cons, hemit s e hs h.1, ih (hstep s e hs h.1) h.2]

/-- **History rule.** What every step that meets `P` keeps between the state and all that was
emitted so far, holds after every run whose steps all do. -/
theorem run_history {I : σ → List ω → Prop}
    (hstep : ∀ s os e, I s os → P s e → I (m.next s e) (os ++ m.emit s e)) {s : σ} {os : List ω}
    (hs : I s os) {es : List ε} (h : m.Along P s es) : I (m.run s es) (os ++ m.trace s es) := by
  -- Induct on the events; what was emitted so far grows with each step.
  induction es generalizing s os with
  | nil => rwa [run_nil, trace_nil, List.append_nil]
  | cons e es ih =>
    rw [run_cons, trace_cons, ← List.append_assoc]
    exact ih (hstep s os e hs h.1) h.2

/-- **Account rule.** If every step that meets `P` takes what it emits of a kind out of an account,
then a run whose steps all do emits no more of it than there was. -/
theorem countP_trace_add_le {I : σ → Prop} {a : σ → ℕ} {p : ω → Bool}
    (hstep : ∀ s e, I s → P s e → I (m.next s e))
    (haccount : ∀ s e, I s → P s e →
      (m.emit s e).countP p + a (m.next s e) ≤ a s)
    {s : σ} (hs : I s) {es : List ε} (h : m.Along P s es) :
    (m.trace s es).countP p + a (m.run s es) ≤ a s := by
  -- Induct on the events; each step pays for what it emits.
  induction es generalizing s with
  | nil => simp
  | cons e es ih =>
    have hrest := ih (hstep s e hs h.1) h.2
    have hnow := haccount s e hs h.1
    rw [trace_cons, run_cons, List.countP_append]
    omega

/-! ## Work done in rounds -/

section Rounds

variable {I : σ → Prop} {Q : ε → Prop} {work : σ → ℕ}

/-- What every step does to the work, a run does: nothing but less. -/
theorem work_run_le (hI : ∀ s e, I s → Q e → I (m.next s e))
    (hwork : ∀ s e, I s → Q e → m.next s e = s ∨ work (m.next s e) < work s) {s : σ} (hs : I s)
    {es : List ε} (hes : ∀ e ∈ es, Q e) : work (m.run s es) ≤ work s := by
  induction es generalizing s with
  | nil => exact Nat.le_refl _
  | cons e es ih =>
    have he := hes e List.mem_cons_self
    have hrest := ih (hI s e hs he) fun f hf => hes f (List.mem_cons_of_mem e hf)
    -- a step that changes nothing, or one that works
    rcases hwork s e hs he with hsame | hless
    · rw [hsame] at hrest
      rwa [run_cons, hsame]
    · exact Nat.le_trans hrest (Nat.le_of_lt hless)

/-- An event that helps where a run begins helps the run: until it comes, nothing changes or
other work is done. -/
theorem work_run_lt (hI : ∀ s e, I s → Q e → I (m.next s e))
    (hwork : ∀ s e, I s → Q e → m.next s e = s ∨ work (m.next s e) < work s) {s : σ} (hs : I s)
    {es : List ε} (hes : ∀ e ∈ es, Q e) {f : ε} (hf : f ∈ es)
    (hhelps : work (m.next s f) < work s) : work (m.run s es) < work s := by
  -- Induct on the events up to the first that changes the state.
  induction es generalizing s with
  | nil => exact absurd hf List.not_mem_nil
  | cons e es ih =>
    have he := hes e List.mem_cons_self
    have hrest : ∀ f ∈ es, Q f := fun f hf => hes f (List.mem_cons_of_mem e hf)
    rcases hwork s e hs he with hsame | hless
    · rw [run_cons, hsame]
      -- nothing changed, so `e` was not the event that helps, which is still to come
      rcases List.mem_cons.mp hf with rfl | hmem
      · exact absurd hhelps (by rw [hsame]; exact Nat.lt_irrefl _)
      · exact ih hs hrest hmem hhelps
    · exact Nat.lt_of_le_of_lt (work_run_le hI hwork (hI s e hs he) hrest) hless

/-- **Round rule.** If no step adds to the work, and every round has an event that does some of it
wherever there is some, then as many rounds as there is work leave none. -/
theorem run_flatten_eq_zero (hI : ∀ s e, I s → Q e → I (m.next s e))
    (hwork : ∀ s e, I s → Q e → m.next s e = s ∨ work (m.next s e) < work s)
    {rounds : List (List ε)} (hQ : ∀ r ∈ rounds, ∀ e ∈ r, Q e)
    (hhelps : ∀ r ∈ rounds, ∀ s, I s → 0 < work s → ∃ e ∈ r, work (m.next s e) < work s) {s : σ}
    (hs : I s) (hlen : work s ≤ rounds.length) : work (m.run s rounds.flatten) = 0 := by
  -- Induct on the rounds; each leaves less work than rounds are left.
  induction rounds generalizing s with
  | nil => exact Nat.le_zero.mp hlen
  | cons r rounds ih =>
    have hr := hQ r List.mem_cons_self
    have hrun : I (m.run s r) := run_of_along hI hs (along_of_forall hr s)
    rw [List.flatten_cons, run_append]
    refine ih (fun r' hr' => hQ r' (List.mem_cons_of_mem r hr'))
      (fun r' hr' => hhelps r' (List.mem_cons_of_mem r hr')) hrun ?_
    rw [List.length_cons] at hlen
    -- the round does some of the work, if there is any
    rcases Nat.eq_zero_or_pos (work s) with hzero | hpos
    · have hle := work_run_le hI hwork hs hr
      omega
    · obtain ⟨e, he, hless⟩ := hhelps r List.mem_cons_self s hs hpos
      have hlt := work_run_lt hI hwork hs hr he hless
      omega

end Rounds

/-! ## Monitors -/

/-- **Two-run rule.** If related events take related states to related states and emit related
observations, then two runs over related event lists end in related states and emit related
traces. -/
theorem trace_related {τ : Type x} {n : Machine τ ε ω} {R : σ → τ → Prop} {E : ε → ε → Prop}
    {O : ω → ω → Prop}
    (hnext : ∀ s t e f, R s t → E e f → R (m.next s e) (n.next t f))
    (hemit : ∀ s t e f, R s t → E e f → List.Forall₂ O (m.emit s e) (n.emit t f))
    {s : σ} {t : τ} (hst : R s t) {es fs : List ε} (hes : List.Forall₂ E es fs) :
    R (m.run s es) (n.run t fs) ∧ List.Forall₂ O (m.trace s es) (n.trace t fs) := by
  -- Induct on the two lists of events, which go in step.
  induction hes generalizing s t with
  | nil => exact ⟨hst, .nil⟩
  | cons hef _ ih =>
    obtain ⟨hrun, htrace⟩ := ih (hnext _ _ _ _ hst hef)
    exact ⟨hrun, List.rel_append (hemit _ _ _ _ hst hef) htrace⟩

/-! ## Simulation -/

/-- **Simulation rule.** If an abstract machine matches every step that meets `P`, it matches every
run whose steps all meet `P`, and emits the same trace. -/
theorem simulates_of_along {τ : Type x} {φ : Type y} {n : Machine τ φ ω} {R : σ → τ → Prop}
    {f : ε → φ}
    (hstep : ∀ s t e, R s t → P s e →
      R (m.next s e) (n.next t (f e)) ∧ m.emit s e = n.emit t (f e))
    {s : σ} {t : τ} (hst : R s t) {es : List ε} (h : m.Along P s es) :
    R (m.run s es) (n.run t (es.map f)) ∧ m.trace s es = n.trace t (es.map f) := by
  -- Induct on the run; `R` is handed from step to step.
  induction es generalizing s t with
  | nil => exact ⟨hst, rfl⟩
  | cons e es ih =>
    obtain ⟨hnext, hemit⟩ := hstep s t e hst h.1
    obtain ⟨hrun, htrace⟩ := ih hnext h.2
    refine ⟨hrun, ?_⟩
    rw [List.map_cons, trace_cons, trace_cons, hemit, htrace]

/-- **Component rule.** If every step that meets `P` is, for a part of the state, a run of another
machine over events that meet `Q`, and emits what that run emits, then so is every run whose steps
all meet `P`. -/
theorem exists_run_of_step {τ : Type x} {φ : Type y} {n : Machine τ φ ω} {v : σ → τ} {I : σ → Prop}
    {Q : φ → Prop} (hI : ∀ s e, I s → I (m.next s e))
    (hstep : ∀ s e, I s → P s e → ∃ fs, v (m.next s e) = n.run (v s) fs ∧
      m.emit s e = n.trace (v s) fs ∧ ∀ f ∈ fs, Q f)
    {s : σ} (hs : I s) {es : List ε} (h : m.Along P s es) :
    ∃ fs, v (m.run s es) = n.run (v s) fs ∧ m.trace s es = n.trace (v s) fs ∧ ∀ f ∈ fs, Q f := by
  induction es generalizing s with
  | nil => exact ⟨[], rfl, rfl, List.forall_mem_nil _⟩
  | cons e es ih =>
    obtain ⟨fs, hnext, hemit, hfs⟩ := hstep s e hs h.1
    obtain ⟨rest, hrun, htrace, hrest⟩ := ih (hI s e hs) h.2
    refine ⟨fs ++ rest, ?_, ?_, fun f hf => (List.mem_append.mp hf).elim (hfs f) (hrest f)⟩
    · rw [run_cons, hrun, hnext, run_append]
    · rw [trace_cons, htrace, hemit, hnext, trace_append]

end Machine

end RobomasterFirmware.Lib
