import RobomasterFirmware.Lib.Machine
import Mathlib.Algebra.BigOperators.Group.List.Basic
import Mathlib.Tactic.Ring

/-!
# The PID Control Law

What a PID controller is for, without the state that an implementation keeps: the output is a
function of the errors accepted so far. An implementation may compute it from an accumulated sum
and one difference, or accumulate the output itself from first and second differences;
`controlLaw_cons` is what makes the two agree.

## Contents
- `controlLaw`: the output as a function of the history of errors
- `controlLaw_cons`: the increment of the output by one more error
- `controller`: the law as a machine that can reject samples
-/

namespace RobomasterFirmware.Lib

universe u

/-- The proportional, integral and derivative gain. -/
structure Gains (R : Type u) where
  p : R
  i : R
  d : R
  deriving DecidableEq, Repr

section Law

variable {R : Type u} [CommRing R]

/-- The `k`-th most recent error, zero before the first. -/
def recent (es : List R) (k : ℕ) : R := es.getD k 0

@[simp] theorem recent_nil (k : ℕ) : recent ([] : List R) k = 0 := rfl

@[simp] theorem recent_cons_zero (e : R) (es : List R) : recent (e :: es) 0 = e := rfl

@[simp] theorem recent_cons_succ (e : R) (es : List R) (k : ℕ) :
    recent (e :: es) (k + 1) = recent es k := rfl

/-- The output after the errors `es`, the most recent first: proportional to the last error, to
their sum, and to the last difference. -/
def controlLaw (g : Gains R) (es : List R) : R :=
  g.p * recent es 0 + g.i * es.sum + g.d * (recent es 0 - recent es 1)

@[simp] theorem controlLaw_nil (g : Gains R) : controlLaw g [] = 0 := by
  simp [controlLaw]

/-- **Increment.** One more error changes the output by its first difference, its value and its
second difference, each times its gain. -/
theorem controlLaw_cons (g : Gains R) (e : R) (es : List R) :
    controlLaw g (e :: es) =
      controlLaw g es +
        (g.p * (e - recent es 0) + g.i * e + g.d * (e - 2 * recent es 0 + recent es 1)) := by
  simp only [controlLaw, recent_cons_zero, recent_cons_succ, List.sum_cons]
  ring

/-- The control law as a machine over errors: a rejected error leaves no trace in the history and
gives the output zero. -/
def controller (g : Gains R) (rejects : R → Bool) : Machine (List R) R R where
  step es e := if rejects e then (es, [0]) else (e :: es, [controlLaw g (e :: es)])

variable {g : Gains R} {rejects : R → Bool} {e : R}

theorem step_controller_of_rejects (h : rejects e = true) (es : List R) :
    (controller g rejects).step es e = (es, [0]) := if_pos h

theorem step_controller_of_accepts (h : ¬ rejects e = true) (es : List R) :
    (controller g rejects).step es e = (e :: es, [controlLaw g (e :: es)]) := if_neg h

end Law

end RobomasterFirmware.Lib
