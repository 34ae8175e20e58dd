import Mathlib.Data.Int.GCD
import Mathlib.Data.List.Basic
import Mathlib.Data.List.Induction
import Mathlib.Logic.Function.Basic
import Mathlib.Tactic.Ring

/-!
# Circular Memory

A writer that goes round a block of `B` cells, one cell for each element, and a reader that copies a
range of it. Whatever was written before, the last `B` elements are there (`ringWrite_apply`), and a
reader that starts far enough back gets exactly the last elements (`ringRead_ringWrite`). Steps of
one length reach positions up to their greatest common divisor with `B` before the end.

Memory is a function from addresses; the block is the addresses below `B`.
-/

namespace RobomasterFirmware.Lib

universe u

variable {α : Type u}

/-! ## Writing -/

/-- Write a list into the cells `pos`, `pos + 1`, ..., modulo `B`. -/
def ringWrite (B : ℕ) (mem : ℕ → α) (pos : ℕ) (xs : List α) : ℕ → α :=
  (xs.foldl (fun (s : (ℕ → α) × ℕ) x => (Function.update s.1 (s.2 % B) x, s.2 + 1)) (mem, pos)).1

private theorem snd_foldl (B : ℕ) (mem : ℕ → α) (pos : ℕ) (xs : List α) :
    (xs.foldl (fun (s : (ℕ → α) × ℕ) x => (Function.update s.1 (s.2 % B) x, s.2 + 1))
      (mem, pos)).2 = pos + xs.length := by
  -- Induct on the list; the position counts the elements.
  induction xs generalizing mem pos with
  | nil => rfl
  | cons x xs ih =>
    rw [List.foldl_cons, ih, List.length_cons]
    omega

/-- The last element written goes to the cell after the others. -/
theorem ringWrite_append_singleton (B : ℕ) (mem : ℕ → α) (pos : ℕ) (xs : List α) (x : α) :
    ringWrite B mem pos (xs ++ [x]) =
      Function.update (ringWrite B mem pos xs) ((pos + xs.length) % B) x := by
  rw [ringWrite, List.foldl_append, List.foldl_cons, List.foldl_nil, snd_foldl]
  rfl

/-- Writing a list in two parts. -/
theorem ringWrite_append (B : ℕ) (mem : ℕ → α) (pos : ℕ) (xs ys : List α) :
    ringWrite B mem pos (xs ++ ys) =
      ringWrite B (ringWrite B mem pos xs) (pos + xs.length) ys := by
  -- Induct on the second part from its end, where the last cell is written.
  induction ys using List.reverseRecOn with
  | nil => rw [List.append_nil]; rfl
  | append_singleton ys y ih =>
    rw [← List.append_assoc, ringWrite_append_singleton, ringWrite_append_singleton, ih,
      List.length_append, Nat.add_assoc]

/-- Writing depends on the start position only modulo the size of the block. -/
theorem ringWrite_mod (B : ℕ) (mem : ℕ → α) (pos : ℕ) (xs : List α) :
    ringWrite B mem (pos % B) xs = ringWrite B mem pos xs := by
  induction xs using List.reverseRecOn with
  | nil => rfl
  | append_singleton xs x ih =>
    rw [ringWrite_append_singleton, ringWrite_append_singleton, ih, Nat.mod_add_mod]

/-- Two positions less than a turn apart are different cells. -/
theorem add_mod_ne {B pos i j : ℕ} (hij : i < j) (hturn : j < i + B) :
    (pos + i) % B ≠ (pos + j) % B := by
  intro h
  -- otherwise their distance would be a multiple of a turn
  have hmod := Nat.sub_mod_eq_zero_of_mod_eq h.symm
  rw [Nat.add_sub_add_left] at hmod
  have hle := Nat.le_of_dvd (by omega) (Nat.dvd_of_mod_eq_zero hmod)
  omega

/-- **Contents.** An element that is not a turn old is still in its cell. -/
theorem ringWrite_apply (B : ℕ) (mem : ℕ → α) (pos : ℕ) {xs : List α} {i : ℕ}
    (hi : i < xs.length) (hturn : xs.length ≤ i + B) :
    ringWrite B mem pos xs ((pos + i) % B) = xs[i] := by
  -- Induct on the list from its end.
  induction xs using List.reverseRecOn with
  | nil => exact absurd hi (Nat.not_lt_zero i)
  | append_singleton xs x ih =>
    rw [List.length_append, List.length_singleton] at hi hturn
    rw [ringWrite_append_singleton]
    rcases Nat.lt_or_ge i xs.length with hlt | hge
    · -- the last element goes to another cell
      rw [Function.update_of_ne (add_mod_ne hlt (by omega)), ih hlt (by omega),
        List.getElem_append_left hlt]
    · obtain rfl : i = xs.length := by omega
      rw [Function.update_self, List.getElem_concat_length rfl]

/-! ## Reading -/

/-- The `n` cells from address `start` on, without going round. -/
def slice (mem : ℕ → α) (start n : ℕ) : List α := (List.range n).map fun i => mem (start + i)

/-- The `n` cells from `start` on, going round after the cell `B - 1`. -/
def ringRead (B : ℕ) (mem : ℕ → α) (start n : ℕ) : List α :=
  (List.range n).map fun i => mem ((start + i) % B)

@[simp] theorem length_slice (mem : ℕ → α) (start n : ℕ) : (slice mem start n).length = n := by
  simp [slice]

@[simp] theorem length_ringRead (B : ℕ) (mem : ℕ → α) (start n : ℕ) :
    (ringRead B mem start n).length = n := by
  simp [ringRead]

/-- A range that ends before the block does is read in one piece. -/
theorem slice_eq_ringRead {B : ℕ} {start n : ℕ} (h : start + n ≤ B) (mem : ℕ → α) :
    slice mem start n = ringRead B mem start n := by
  apply List.map_congr_left
  intro i hi
  have hlt : start + i < B := by
    have := List.mem_range.mp hi
    omega
  rw [Nat.mod_eq_of_lt hlt]

/-- A range that goes round is read in two pieces. -/
theorem slice_append_slice {B : ℕ} {start n : ℕ} (hstart : start < B) (hge : B ≤ start + n)
    (hn : n ≤ B) (mem : ℕ → α) :
    slice mem start (B - start) ++ slice mem 0 (start + n - B) = ringRead B mem start n := by
  apply List.ext_getElem
  · simp
    omega
  · intro i hi hi'
    rw [length_ringRead] at hi'
    -- the first piece ends with the block
    rcases Nat.lt_or_ge i (B - start) with hlt | hge'
    · rw [List.getElem_append_left (by simpa using hlt)]
      simp only [slice, ringRead, List.getElem_map, List.getElem_range]
      rw [Nat.mod_eq_of_lt (by omega)]
    · rw [List.getElem_append_right (by simpa using hge')]
      simp only [slice, ringRead, List.getElem_map, List.getElem_range, List.length_map,
        List.length_range]
      have hwrap : (start + i) % B = start + i - B := by
        rw [Nat.mod_eq_sub_mod (by omega), Nat.mod_eq_of_lt (by omega)]
      rw [hwrap]
      congr 1
      omega

/-- **Reading back.** Reading the last `n` elements, at most a turn, gives them in order. -/
theorem ringRead_ringWrite {B : ℕ} (mem : ℕ → α) (pos : ℕ) {xs : List α} {n : ℕ}
    (hn : n ≤ xs.length) (hturn : n ≤ B) :
    ringRead B (ringWrite B mem pos xs) (pos + (xs.length - n)) n = xs.drop (xs.length - n) := by
  apply List.ext_getElem
  · simp
    omega
  · intro i hi hi'
    rw [length_ringRead] at hi
    simp only [ringRead, List.getElem_map, List.getElem_range, List.getElem_drop]
    rw [Nat.add_assoc]
    -- none of them is a turn old
    exact ringWrite_apply B mem pos (by omega) (by omega)

/-- Reading depends on the start position only modulo the size of the block. -/
theorem ringRead_mod (B : ℕ) (mem : ℕ → α) (start n : ℕ) :
    ringRead B mem (start % B) n = ringRead B mem start n := by
  simp only [ringRead, Nat.mod_add_mod]

/-! ## Positions -/

/-- The number of elements between two positions of a ring. -/
def ringDistance (B start stop : ℕ) : ℕ := if start ≤ stop then stop - start else B - (start - stop)

/-- Only whole turns leave the position where it was. -/
theorem add_mod_eq_self_iff {B w : ℕ} (hw : w < B) (n : ℕ) : (w + n) % B = w ↔ n % B = 0 := by
  have hself := Nat.mod_eq_of_lt hw
  constructor
  · intro h
    -- two positions that agree modulo `B` are whole turns apart
    have hdiff := Nat.sub_mod_eq_zero_of_mod_eq (h.trans hself.symm)
    rwa [Nat.add_sub_cancel_left] at hdiff
  · intro h
    rw [Nat.add_mod, h, Nat.add_zero, Nat.mod_mod, hself]

/-- What a burst leaves waiting is its length without the whole turns. -/
theorem ringDistance_add_mod {B w : ℕ} (hw : w < B) (n : ℕ) :
    ringDistance B w ((w + n) % B) = n % B := by
  have hlt := Nat.mod_lt n (by omega : 0 < B)
  rw [Nat.add_mod, Nat.mod_eq_of_lt hw, ringDistance]
  -- the position is still ahead of `w`, or has gone round behind it
  rcases Nat.lt_or_ge (w + n % B) B with hin | hwrap
  · rw [Nat.mod_eq_of_lt hin, if_pos (Nat.le_add_right _ _), Nat.add_sub_cancel_left]
  · rw [Nat.mod_eq_sub_mod hwrap, Nat.mod_eq_of_lt (by omega), if_neg (by omega)]
    omega

/-- Steps of length `n` stay that far from the end of the ring. -/
theorem mul_mod_add_gcd_le {B : ℕ} (hB : 0 < B) (n k : ℕ) : n * k % B + Nat.gcd n B ≤ B := by
  have hpos : Nat.gcd n B ∣ n * k % B :=
    (Nat.dvd_mod_iff (Nat.gcd_dvd_right n B)).mpr ((Nat.gcd_dvd_left n B).mul_right k)
  -- the position is a multiple of the greatest common divisor, and so is `B`
  obtain ⟨i, hi⟩ := hpos
  obtain ⟨j, hj⟩ := Nat.gcd_dvd_right n B
  have hlt := Nat.mod_lt (n * k) hB
  have hij : i < j := by
    by_contra hge
    have := Nat.mul_le_mul_left (Nat.gcd n B) (Nat.not_lt.mp hge)
    omega
  calc n * k % B + Nat.gcd n B = Nat.gcd n B * (i + 1) := by rw [hi, Nat.mul_succ]
    _ ≤ Nat.gcd n B * j := Nat.mul_le_mul_left _ hij
    _ = B := hj.symm

/-- Steps of length `n` get that close to the end of the ring. -/
theorem exists_mul_mod_add_gcd {B n : ℕ} (h : Nat.gcd n B < B) :
    ∃ k, n * k % B + Nat.gcd n B = B := by
  obtain ⟨m, -, hm⟩ := Nat.exists_mul_mod_eq_gcd h
  obtain ⟨j, hj⟩ := Nat.gcd_dvd_right n B
  have hg : 0 < Nat.gcd n B := Nat.gcd_pos_of_pos_right n (Nat.zero_lt_of_lt h)
  have hj0 : 1 ≤ j := by
    by_contra h0
    obtain rfl : j = 0 := by omega
    omega
  -- `j` steps of the greatest common divisor go once round, so `j - 1` stop just before the end
  refine ⟨m * (j - 1), ?_⟩
  have hback : Nat.gcd n B * (j - 1) + Nat.gcd n B = B := by
    rw [← Nat.mul_succ, Nat.succ_eq_add_one, Nat.sub_add_cancel hj0, ← hj]
  rw [← Nat.mul_assoc, Nat.mul_mod, hm, Nat.mul_mod_mod, Nat.mod_eq_of_lt (by omega), hback]

end RobomasterFirmware.Lib
