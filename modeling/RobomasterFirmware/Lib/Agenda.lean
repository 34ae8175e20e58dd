import Mathlib.Algebra.Ring.Nat
import Mathlib.Data.List.Nodup
import Mathlib.Order.Basic

/-!
# Agendas and Clocks That Wrap

An agenda lists what is to happen at which time: earlier deadlines first, and equal ones in the
order in which they were made. A clock of 32 bits shows the time only modulo `2 ^ 32`; as long as
two times are less than half a turn apart, the difference of their readings still tells which is
earlier.

## Contents
- `wrap_sub_of_le`, `wrap_sub_of_lt`: the difference of two readings
- `Agenda.schedule`, `Agenda.cancel`: an entry is made or struck off, with the lemmas that say what
  is then on the agenda and in which order
-/

namespace RobomasterFirmware.Lib

/-! ## Clocks that wrap -/

section Clock

variable {a b : ℕ}

/-- The reading `b` is not later. -/
theorem wrap_sub_of_le (hle : b ≤ a) (hwin : a < b + 2 ^ 32) :
    (UInt32.ofNat a - UInt32.ofNat b).toNat = a - b := by
  rw [← UInt32.ofNat_sub hle]
  exact UInt32.toNat_ofNat_of_lt' (by simp only [UInt32.size]; omega)

/-- The reading `b` is later. -/
theorem wrap_sub_of_lt (hlt : a < b) (hwin : b < a + 2 ^ 32) :
    (UInt32.ofNat a - UInt32.ofNat b).toNat = 2 ^ 32 - (b - a) := by
  -- the difference the other way round is small
  have hback : (UInt32.ofNat b - UInt32.ofNat a).toNat = b - a :=
    wrap_sub_of_le (Nat.le_of_lt hlt) hwin
  rw [← UInt32.neg_sub, UInt32.toNat_neg, hback, UInt32.size]
  omega

end Clock

/-! ## Agendas -/

/-- What is to happen, and when. -/
abbrev Agenda (ι : Type*) := List (ι × ℕ)

namespace Agenda

variable {ι : Type*} {q : Agenda ι} {e f : ι × ℕ} {i j : ι}

/-- Makes an entry, after all that are not later. -/
def schedule (e : ι × ℕ) : Agenda ι → Agenda ι
  | [] => [e]
  | f :: q => if f.2 ≤ e.2 then f :: schedule e q else e :: f :: q

/-- Nothing comes before what is due earlier. -/
def Sorted (q : Agenda ι) : Prop := q.Pairwise fun e f => e.2 ≤ f.2

/-- Nobody is on the agenda twice. -/
def Single (q : Agenda ι) : Prop := (q.map Prod.fst).Nodup

theorem mem_schedule : f ∈ schedule e q ↔ f = e ∨ f ∈ q := by
  -- Induct on the agenda; the new entry goes behind what is not later, or here.
  induction q with
  | nil => simp [schedule]
  | cons g q ih =>
    unfold schedule
    split
    · simp [ih, or_left_comm]
    · simp

theorem Sorted.schedule (h : Sorted q) (e : ι × ℕ) : Sorted (schedule e q) := by
  induction q with
  | nil => exact List.pairwise_singleton _ _
  | cons g q ih =>
    obtain ⟨hg, hq⟩ := List.pairwise_cons.mp h
    unfold Agenda.schedule
    split
    · rename_i hle
      -- `g` stays in front: the new entry is not earlier, and the others were behind it
      refine List.pairwise_cons.mpr ⟨fun f hf => ?_, ih hq⟩
      rcases mem_schedule.mp hf with rfl | hf
      · exact hle
      · exact hg f hf
    · rename_i hlt
      -- the new entry goes in front of `g`, and so of all that is behind
      have hlt := Nat.le_of_not_le hlt
      refine List.pairwise_cons.mpr ⟨fun f hf => ?_, h⟩
      rcases List.mem_cons.mp hf with rfl | hf
      · exact hlt
      · exact Nat.le_trans hlt (hg f hf)

theorem perm_schedule (e : ι × ℕ) (q : Agenda ι) : (schedule e q).Perm (e :: q) := by
  induction q with
  | nil => rfl
  | cons g q ih =>
    unfold schedule
    split
    · exact (ih.cons g).trans (List.Perm.swap e g q)
    · rfl

theorem Single.schedule (h : Single q) (he : e.1 ∉ q.map Prod.fst) : Single (schedule e q) := by
  rw [Single, ((perm_schedule e q).map Prod.fst).nodup_iff]
  exact List.nodup_cons.mpr ⟨he, h⟩

/-- What is due first, is due before everything. -/
theorem Sorted.head_le (h : Sorted (e :: q)) : ∀ f ∈ e :: q, e.2 ≤ f.2 := by
  intro f hf
  rcases List.mem_cons.mp hf with rfl | hf
  · exact Nat.le_refl _
  · exact (List.pairwise_cons.mp h).1 f hf

/-- Two entries of one agenda are the same if they are of the same. -/
theorem Single.eq_of_mem (h : Single q) {d d' : ℕ} (hd : (i, d) ∈ q) (hd' : (i, d') ∈ q) :
    d = d' := by
  have heq : (i, d) = (i, d') := List.inj_on_of_nodup_map h hd hd' rfl
  exact congrArg Prod.snd heq

variable [DecidableEq ι]

/-- Strikes an entry off. -/
def cancel (i : ι) (q : Agenda ι) : Agenda ι := q.filter (·.1 ≠ i)

theorem mem_cancel : f ∈ cancel i q ↔ f ∈ q ∧ f.1 ≠ i := by
  simp [cancel]

theorem Sorted.cancel (h : Sorted q) (i : ι) : Sorted (cancel i q) := h.filter _

theorem map_cancel (i : ι) (q : Agenda ι) :
    (cancel i q).map Prod.fst = (q.map Prod.fst).filter (· ≠ i) := by
  rw [cancel, List.filter_map]
  rfl

theorem Single.cancel (h : Single q) (i : ι) : Single (cancel i q) := by
  rw [Single, map_cancel]
  exact List.Nodup.filter _ h

theorem not_mem_cancel (i : ι) (q : Agenda ι) : i ∉ (cancel i q).map Prod.fst := by
  rw [map_cancel]
  simp

end Agenda

end RobomasterFirmware.Lib
