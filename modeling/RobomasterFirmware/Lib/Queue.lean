import RobomasterFirmware.Lib.Machine
import RobomasterFirmware.Lib.Ring

/-!
# Queues that Drop

A queue of bounded capacity that makes room for a new element by dropping the oldest, its
representation in circular memory, and the conservation rule for machines that take elements in,
keep some of them and give them out in order.

## Main Results
- `push`, `foldl_push`: what is left after any number of elements
- `ringRead_update`, `ringRead_succ`: the queue in circular memory grows at the end and shrinks at
  the front
- `Machine.conserved_of_step`: what a run gives out and still keeps is part of what came in, in
  order, and is all of it exactly if every step lost nothing
-/

namespace RobomasterFirmware.Lib

universe u v w

/-! ## The queue -/

variable {α : Type u}

/-- Append an element, and drop the oldest one if there are more than `cap` now. -/
def push (cap : ℕ) (q : List α) (x : α) : List α := (q ++ [x]).drop (q.length + 1 - cap)

variable {cap : ℕ} {q : List α}

theorem push_of_lt (h : q.length < cap) (x : α) : push cap q x = q ++ [x] := by
  rw [push, Nat.sub_eq_zero_of_le h, List.drop_zero]

theorem push_of_full (h : q.length = cap) (x : α) : push cap q x = (q ++ [x]).drop 1 := by
  rw [push, h, Nat.add_sub_cancel_left]

theorem length_push_le (h : q.length ≤ cap) (x : α) : (push cap q x).length ≤ cap := by
  rw [push, List.length_drop, List.length_append, List.length_singleton]
  omega

/-- **Contents.** After any number of elements the last `cap` are left. -/
theorem foldl_push (h : q.length ≤ cap) (xs : List α) :
    xs.foldl (push cap) q = (q ++ xs).drop (q.length + xs.length - cap) := by
  -- Induct on the elements; while there is room nothing is dropped.
  induction xs generalizing q with
  | nil =>
    rw [List.foldl_nil, List.append_nil, List.length_nil, Nat.add_zero, Nat.sub_eq_zero_of_le h,
      List.drop_zero]
  | cons x xs ih =>
    rw [List.foldl_cons, ih (length_push_le h x)]
    rcases Nat.lt_or_ge q.length cap with hlt | hge
    · rw [push_of_lt hlt, List.append_assoc, List.singleton_append, List.length_append,
        List.length_singleton, List.length_cons, Nat.add_assoc, Nat.add_comm 1]
    · -- the oldest one goes, so one less is dropped afterwards
      have hfull : q.length = cap := Nat.le_antisymm h hge
      have hpush : push cap q x ++ xs = (q ++ x :: xs).drop 1 := by
        rw [push_of_full hfull, ← List.drop_append_of_le_length (by simp), List.append_assoc,
          List.singleton_append]
      have hlen : (push cap q x).length = cap := by
        rw [push_of_full hfull, List.length_drop, List.length_append, List.length_singleton, hfull,
          Nat.add_sub_cancel]
      rw [hpush, hlen, List.drop_drop, hfull, List.length_cons]
      congr 1
      omega

/-! ## In circular memory -/

theorem ringRead_succ (B : ℕ) (mem : ℕ → α) (start n : ℕ) :
    ringRead B mem start (n + 1) = mem (start % B) :: ringRead B mem (start + 1) n := by
  simp only [ringRead, List.range_succ_eq_map, List.map_cons, List.map_map, Nat.add_zero]
  refine congrArg (mem (start % B) :: ·) (List.map_congr_left fun i _ => ?_)
  simp only [Function.comp_apply, Nat.succ_eq_add_one]
  congr 2
  omega

/-- The element behind a queue that has a cell to spare. -/
theorem ringRead_update {B n : ℕ} (hn : n < B) (mem : ℕ → α) (start : ℕ) (x : α) :
    ringRead B (Function.update mem ((start + n) % B) x) start (n + 1) =
      ringRead B mem start n ++ [x] := by
  simp only [ringRead, List.range_succ, List.map_append, List.map_singleton, Function.update_self]
  refine congrArg (· ++ [x]) (List.map_congr_left fun i hi => ?_)
  -- the cells of the queue are less than a turn before the new one
  exact Function.update_of_ne (add_mod_ne (List.mem_range.mp hi) (by omega)) _ _

/-! ## Conservation -/

namespace Machine

variable {σ : Type v} {ε : Type w} {m : Machine σ ε α} {I : σ → Prop} {P : σ → ε → Prop}
  {kept : σ → List α} {arrived : ε → List α}

/-- **Conservation rule.** Every step gives out and keeps part of what was kept before and what
arrives, in order, and all of it exactly under `P`. Then so does every run, and all of it exactly if
`P` holds along it. -/
theorem conserved_of_step (hI : ∀ s e, I s → I (m.next s e))
    (hpart : ∀ s e, I s → (m.emit s e ++ kept (m.next s e)).Sublist (kept s ++ arrived e))
    (hall : ∀ s e, I s → (m.emit s e ++ kept (m.next s e) = kept s ++ arrived e ↔ P s e))
    {s : σ} (hs : I s) (es : List ε) :
    (m.trace s es ++ kept (m.run s es)).Sublist (kept s ++ es.flatMap arrived) ∧
      (m.trace s es ++ kept (m.run s es) = kept s ++ es.flatMap arrived ↔ m.Along P s es) := by
  -- Induct on the run; what the first step keeps is what the rest starts with.
  induction es generalizing s with
  | nil => simp
  | cons e es ih =>
    obtain ⟨hrest, hiff⟩ := ih (hI s e hs)
    have hstep := hpart s e hs
    have hrest' := hrest.append_left (m.emit s e)
    have hstep' := hstep.append_right (es.flatMap arrived)
    rw [List.append_assoc, List.append_assoc] at hstep'
    rw [trace_cons, run_cons, List.flatMap_cons, List.append_assoc, along_cons, ← hall s e hs,
      ← hiff]
    refine ⟨hrest'.trans hstep', fun heq => ?_, fun ⟨hnow, hlater⟩ => ?_⟩
    · -- both parts are whole, since together they are
      have hle := hrest'.length_le
      have hle' := hstep'.length_le
      have hlen := congrArg List.length heq
      have hlater := hrest'.eq_of_length (by omega)
      have hnow := hstep'.eq_of_length (by omega)
      rw [← List.append_assoc, ← List.append_assoc] at hnow
      exact ⟨List.append_cancel_right hnow, List.append_cancel_left hlater⟩
    · rw [hlater, ← List.append_assoc, hnow, List.append_assoc]

end Machine

end RobomasterFirmware.Lib
