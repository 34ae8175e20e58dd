import Mathlib.Data.List.FinRange
import Mathlib.Data.List.Nodup
import Mathlib.Logic.Function.Basic

/-!
# Queues in Buckets

A priority queue with one list for each level and one bit for each level whose list is not empty.
Level zero comes first; within a level, who came first.

## Contents
- `Buckets.insert`, `Buckets.remove`, `Buckets.top`: the operations, in constant time but for the
  lists
- `mem_insert`, `mem_remove`: what is where after an operation
- `before_insert`, `before_remove`: who comes before an element after an operation
- `Exact`: the bits tell which lists are not empty; kept by all operations
- `top_eq_some_iff`: under `Exact` the top is the head of the first list that is not empty
-/

namespace RobomasterFirmware.Lib

/-- The lists of the levels, and their bits. -/
structure Buckets (w : ℕ) (α : Type*) where
  group : BitVec w
  table : Fin w → List α

namespace Buckets

variable {w : ℕ} {α : Type*}

/-! ## Operations -/

def empty (w : ℕ) (α : Type*) : Buckets w α where
  group := 0
  table _ := []

/-- Appends to the list of a level and sets its bit. -/
def insert (b : Buckets w α) (p : Fin w) (x : α) : Buckets w α where
  group := b.group ||| BitVec.twoPow w p
  table := Function.update b.table p (b.table p ++ [x])

/-- Takes out of the list of a level, and clears its bit if nothing is left. -/
def remove [DecidableEq α] (b : Buckets w α) (p : Fin w) (x : α) : Buckets w α where
  group := if (b.table p).erase x = [] then b.group &&& ~~~ BitVec.twoPow w p else b.group
  table := Function.update b.table p ((b.table p).erase x)

/-- The lowest level whose bit is set. -/
def level (b : Buckets w α) : Option (Fin w) :=
  (List.finRange w).find? fun p => b.group.getLsbD p

/-- The first of the lowest level, with the level. -/
def top (b : Buckets w α) : Option (Fin w × α) :=
  b.level.bind fun p => (b.table p).head?.map fun x => (p, x)

/-! ## Exact bits -/

variable {b : Buckets w α} {p q : Fin w} {x : α}

/-- The bits tell which lists are not empty. -/
def Exact (b : Buckets w α) : Prop := ∀ p : Fin w, b.group.getLsbD p = true ↔ b.table p ≠ []

theorem exact_empty (w : ℕ) (α : Type*) : (empty w α).Exact := fun p => by simp [empty]

theorem getLsbD_set (v : BitVec w) (p q : Fin w) :
    (v ||| BitVec.twoPow w p).getLsbD q = (v.getLsbD q || decide (q = p)) := by
  rw [BitVec.getLsbD_or, BitVec.getLsbD_twoPow]
  simp [Fin.ext_iff, eq_comm]

theorem getLsbD_clear (v : BitVec w) (p q : Fin w) :
    (v &&& ~~~ BitVec.twoPow w p).getLsbD q = (v.getLsbD q && !decide (q = p)) := by
  rw [BitVec.getLsbD_and, BitVec.getLsbD_not, BitVec.getLsbD_twoPow]
  simp [Fin.ext_iff, eq_comm]

theorem Exact.insert (h : b.Exact) (p : Fin w) (x : α) : (b.insert p x).Exact := by
  intro q
  show (b.group ||| BitVec.twoPow w p).getLsbD q = true ↔
    Function.update b.table p (b.table p ++ [x]) q ≠ []
  rw [getLsbD_set]
  rcases eq_or_ne q p with rfl | hne
  · simp
  · rw [Function.update_of_ne hne, ← h q]
    simp [hne]

theorem Exact.remove [DecidableEq α] (h : b.Exact) (p : Fin w) (x : α) : (b.remove p x).Exact := by
  intro q
  show (if (b.table p).erase x = [] then b.group &&& ~~~ BitVec.twoPow w p else b.group).getLsbD q =
    true ↔ Function.update b.table p ((b.table p).erase x) q ≠ []
  rcases eq_or_ne q p with rfl | hne
  · rw [Function.update_self]
    -- at the level itself the bit is cleared exactly if nothing is left
    split
    · rename_i hnil
      rw [getLsbD_clear, hnil]
      simp
    · rename_i hcons
      refine iff_of_true ((h q).mpr fun hnil => hcons ?_) hcons
      rw [hnil, List.erase_nil]
  -- the other bits stay, cleared mask or not
  · rw [Function.update_of_ne hne, ← h q]
    split
    · rw [getLsbD_clear]
      simp [hne]
    · rfl

/-- What is not there is taken out without a trace. -/
theorem remove_of_not_mem [DecidableEq α] (h : b.Exact) (hx : x ∉ b.table p) :
    b.remove p x = b := by
  have herase : (b.table p).erase x = b.table p := List.erase_of_not_mem hx
  have htable : Function.update b.table p ((b.table p).erase x) = b.table := by
    rw [herase, Function.update_eq_self]
  -- the bit is cleared only where it was not set
  have hgroup : (b.remove p x).group = b.group := by
    unfold remove
    rw [herase]
    split
    · rename_i hnil
      have hbit : ¬ b.group.getLsbD p = true := mt (h p).mp (not_not_intro hnil)
      refine BitVec.eq_of_getLsbD_eq fun i hi => ?_
      have hclear := getLsbD_clear b.group p ⟨i, hi⟩
      rw [hclear]
      rcases eq_or_ne (⟨i, hi⟩ : Fin w) p with rfl | hne
      · simp [hbit]
      · simp [hne]
    · rfl
  calc b.remove p x = ⟨(b.remove p x).group, Function.update b.table p ((b.table p).erase x)⟩ := rfl
    _ = b := by rw [hgroup, htable]

/-! ## Members -/

variable {y : α}

theorem mem_insert : y ∈ (b.insert p x).table q ↔ y ∈ b.table q ∨ (q = p ∧ y = x) := by
  show y ∈ Function.update b.table p (b.table p ++ [x]) q ↔ _
  rcases eq_or_ne q p with rfl | hne
  · simp
  · simp [hne]

theorem nodup_insert (h : (b.table q).Nodup) (hx : x ∉ b.table p) :
    ((b.insert p x).table q).Nodup := by
  show (Function.update b.table p (b.table p ++ [x]) q).Nodup
  rcases eq_or_ne q p with rfl | hne
  · rw [Function.update_self]
    exact h.append (List.nodup_singleton x) (List.disjoint_singleton.mpr hx)
  · rwa [Function.update_of_ne hne]

section

variable [DecidableEq α]

theorem mem_remove (h : (b.table q).Nodup) :
    y ∈ (b.remove p x).table q ↔ y ∈ b.table q ∧ (q = p → y ≠ x) := by
  show y ∈ Function.update b.table p ((b.table p).erase x) q ↔ _
  rcases eq_or_ne q p with rfl | hne
  · rw [Function.update_self, h.mem_erase_iff, and_comm]
    simp
  · simp [hne]

theorem nodup_remove (h : (b.table q).Nodup) : ((b.remove p x).table q).Nodup := by
  show (Function.update b.table p ((b.table p).erase x) q).Nodup
  rcases eq_or_ne q p with rfl | hne
  · rw [Function.update_self]
    exact h.erase x
  · rwa [Function.update_of_ne hne]

end

/-! ## Who comes before -/

section

variable [DecidableEq α]

/-- What comes before an element of a level. -/
def before (b : Buckets w α) (p : Fin w) (x : α) : List α := (b.table p).takeWhile (· ≠ x)

/-- Who comes later comes behind. -/
theorem before_insert (hx : x ∈ b.table p) (q : Fin w) (y : α) :
    (b.insert q y).before p x = b.before p x := by
  unfold before
  show (Function.update b.table q (b.table q ++ [y]) p).takeWhile _ = _
  rcases eq_or_ne p q with rfl | hne
  · rw [Function.update_self]
    generalize b.table p = l at hx
    -- Induct on the list of the level; `x` is found before its end is reached.
    induction l with
    | nil => exact absurd hx List.not_mem_nil
    | cons z l ih =>
      rcases eq_or_ne z x with rfl | hz
      · simp
      · have hrest := ih ((List.mem_cons.mp hx).resolve_left hz.symm)
        rw [List.cons_append, List.takeWhile_cons_of_pos (by simpa using hz),
          List.takeWhile_cons_of_pos (by simpa using hz), hrest]
  · rw [Function.update_of_ne hne]

/-- Who leaves comes before nobody. -/
theorem before_remove (hne : y ≠ x) (q : Fin w) :
    (b.remove q y).before p x = if p = q then (b.before p x).erase y else b.before p x := by
  unfold before
  show (Function.update b.table q ((b.table q).erase y) p).takeWhile _ = _
  rcases eq_or_ne p q with rfl | hpq
  · rw [Function.update_self, if_pos rfl]
    generalize b.table p = l
    -- Induct on the list of the level, up to the first of `x` and `y`.
    induction l with
    | nil => rfl
    | cons z l ih =>
      -- `y` itself leaves here, or `x` comes first and nothing behind it counts
      rcases eq_or_ne z y with rfl | hz
      · simp [hne]
      · rw [List.erase_cons_tail (by simpa using hz)]
        rcases eq_or_ne z x with rfl | hzx
        · simp
        · rw [List.takeWhile_cons_of_pos (by simpa using hzx),
            List.takeWhile_cons_of_pos (by simpa using hzx),
            List.erase_cons_tail (by simpa using hz), ih]
  · rw [Function.update_of_ne hpq, if_neg hpq]

theorem before_subset : b.before p x ⊆ b.table p := (List.takeWhile_prefix _).subset

/-- Who is at the head comes before the others. -/
theorem mem_before_of_head? (hy : (b.table p).head? = some y) (hne : y ≠ x) : y ∈ b.before p x := by
  obtain ⟨l, hl⟩ := List.head?_eq_some_iff.mp hy
  rw [before, hl, List.takeWhile_cons_of_pos (by simpa using hne)]
  exact List.mem_cons_self

end

/-! ## The top -/

theorem level_eq_some_iff :
    b.level = some p ↔ b.group.getLsbD p = true ∧ ∀ q < p, ¬ b.group.getLsbD q = true := by
  rw [level, List.find?_eq_some_iff_getElem]
  constructor
  · rintro ⟨hbit, i, hi, heq, hnone⟩
    rw [List.getElem_finRange] at heq
    refine ⟨hbit, fun q hq hbit' => ?_⟩
    -- `finRange` lists the levels in order, so a lower level was looked at before
    have hqi : q.val < i := by
      rw [← heq] at hq
      exact hq
    have hnot := hnone q.val hqi
    rw [List.getElem_finRange] at hnot
    simp at hnot
    simp [hnot] at hbit'
  · rintro ⟨hbit, hnone⟩
    refine ⟨hbit, p.val, by simp, by simp, fun j hj => ?_⟩
    rw [List.getElem_finRange]
    have hnot := hnone ⟨j, Nat.lt_trans hj p.isLt⟩ hj
    simpa using hnot

/-- **The rule of the top**: it is the head of the first list that is not empty. -/
theorem top_eq_some_iff (h : b.Exact) :
    b.top = some (p, x) ↔ (b.table p).head? = some x ∧ ∀ q < p, b.table q = [] := by
  have hempty (q : Fin w) : ¬ b.group.getLsbD q = true ↔ b.table q = [] := by rw [h q, not_not]
  constructor
  -- the level whose bit is the lowest is that of the first list with something in it
  · intro htop
    obtain ⟨p', hlevel, hhead⟩ := Option.bind_eq_some_iff.mp htop
    obtain ⟨x', hx, heq⟩ := Option.map_eq_some_iff.mp hhead
    obtain ⟨rfl, rfl⟩ := Prod.mk.inj heq
    exact ⟨hx, fun q hq => (hempty q).mp ((level_eq_some_iff.mp hlevel).2 q hq)⟩
  · rintro ⟨hx, hnone⟩
    have hlevel : b.level = some p := by
      refine level_eq_some_iff.mpr
        ⟨(h p).mpr fun hnil => ?_, fun q hq => (hempty q).mpr (hnone q hq)⟩
      rw [hnil] at hx
      contradiction
    rw [top, hlevel, Option.bind_some, hx]
    rfl

theorem top_eq_none_iff (h : b.Exact) : b.top = none ↔ ∀ p, b.table p = [] := by
  constructor
  · intro htop p
    -- a level that is found has a head, so none was found
    cases hlevel : b.level with
    | none =>
      have hbit := List.find?_eq_none.mp hlevel p (List.mem_finRange p)
      exact not_not.mp (mt (h p).mpr hbit)
    | some q =>
      have hcons := (h q).mp (level_eq_some_iff.mp hlevel).1
      rw [top, hlevel, Option.bind_some, Option.map_eq_none_iff, List.head?_eq_none_iff] at htop
      contradiction
  · intro hnone
    cases htop : b.top with
    | none => rfl
    | some px =>
      obtain ⟨hhead, -⟩ := (top_eq_some_iff h).mp htop
      rw [hnone px.1] at hhead
      contradiction

end Buckets

end RobomasterFirmware.Lib
