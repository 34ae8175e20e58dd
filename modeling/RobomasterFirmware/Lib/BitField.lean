import Mathlib.Data.List.Basic
import Mathlib.Data.Nat.Bitwise
import Mathlib.Tactic.Ring

/-!
# Bit Fields Packed Least Significant Bit First

A record of unsigned fields, each with its width, packed into one number from bit 0 upwards, and
read back by repeated remainder and quotient. A byte string is the special case in which every
width is 8.

Packing and unpacking are inverse to each other on values that fit (`unpack_pack`,
`pack_unpack`).
-/

namespace RobomasterFirmware.Lib

/-- Pack values into fields of the given widths, least significant bit first. -/
def pack : List ℕ → List ℕ → ℕ
  | w :: ws, v :: vs => v % 2 ^ w + 2 ^ w * pack ws vs
  | _, _ => 0

/-- Read the fields of the given widths, least significant bit first. -/
def unpack : List ℕ → ℕ → List ℕ
  | [], _ => []
  | w :: ws, n => n % 2 ^ w :: unpack ws (n / 2 ^ w)

@[simp] theorem unpack_nil (n : ℕ) : unpack [] n = [] := rfl

@[simp] theorem unpack_cons (w : ℕ) (ws : List ℕ) (n : ℕ) :
    unpack (w :: ws) n = n % 2 ^ w :: unpack ws (n / 2 ^ w) := rfl

/-- `Fits ws vs`: as many values as widths, and each value fits its width. -/
def Fits (ws vs : List ℕ) : Prop := List.Forall₂ (fun w v => v < 2 ^ w) ws vs

/-- Reading back a packed record gives its fields. -/
theorem unpack_pack {ws vs : List ℕ} (h : Fits ws vs) : unpack ws (pack ws vs) = vs := by
  induction h with
  | nil => rfl
  | @cons w v ws vs hv _ ih =>
    simp only [pack, unpack_cons, Nat.mod_eq_of_lt hv]
    have hmod : (v + 2 ^ w * pack ws vs) % 2 ^ w = v := by
      rw [Nat.add_mul_mod_self_left, Nat.mod_eq_of_lt hv]
    have hdiv : (v + 2 ^ w * pack ws vs) / 2 ^ w = pack ws vs := by
      rw [Nat.add_mul_div_left _ _ (Nat.two_pow_pos w), Nat.div_eq_of_lt hv, Nat.zero_add]
    rw [hmod, hdiv, ih]

/-- Packing the fields that were read gives back the number, if it fits the layout. -/
theorem pack_unpack {ws : List ℕ} {n : ℕ} (h : n < 2 ^ ws.sum) : pack ws (unpack ws n) = n := by
  induction ws generalizing n with
  | nil =>
    have hn : n = 0 := by simpa using h
    rw [hn]
    rfl
  | cons w ws ih =>
    rw [List.sum_cons, Nat.pow_add] at h
    have hq : n / 2 ^ w < 2 ^ ws.sum := Nat.div_lt_of_lt_mul h
    simp only [pack, unpack_cons, Nat.mod_mod, ih hq]
    exact Nat.mod_add_div n (2 ^ w)

/-- A packed record fits its layout. -/
theorem pack_lt (ws vs : List ℕ) : pack ws vs < 2 ^ ws.sum := by
  induction ws generalizing vs with
  | nil => cases vs <;> simp [pack]
  | cons w ws ih =>
    cases vs with
    | nil => simp [pack]
    | cons v vs =>
      rw [pack, List.sum_cons, Nat.pow_add]
      have hv : v % 2 ^ w < 2 ^ w := Nat.mod_lt _ (Nat.two_pow_pos w)
      calc v % 2 ^ w + 2 ^ w * pack ws vs
          < 2 ^ w + 2 ^ w * pack ws vs := by omega
        _ = 2 ^ w * (pack ws vs + 1) := by ring
        _ ≤ 2 ^ w * 2 ^ ws.sum := Nat.mul_le_mul_left _ (ih vs)

/-- The fields below bit `ws.sum` depend only on the part of the number below it, the fields above
it only on the rest. -/
theorem unpack_append {ws : List ℕ} {lo : ℕ} (hlo : lo < 2 ^ ws.sum) (vs : List ℕ) (hi : ℕ) :
    unpack (ws ++ vs) (lo + 2 ^ ws.sum * hi) = unpack ws lo ++ unpack vs hi := by
  induction ws generalizing lo with
  | nil =>
    have hlo' : lo = 0 := by simpa using hlo
    simp [hlo']
  | cons w ws ih =>
    rw [List.sum_cons, Nat.pow_add] at hlo
    have hq : lo / 2 ^ w < 2 ^ ws.sum := Nat.div_lt_of_lt_mul hlo
    have hsplit : lo + 2 ^ (w :: ws).sum * hi = lo + 2 ^ w * (2 ^ ws.sum * hi) := by
      rw [List.sum_cons, Nat.pow_add, Nat.mul_assoc]
    rw [hsplit, List.cons_append, unpack_cons, Nat.add_mul_mod_self_left,
      Nat.add_mul_div_left _ _ (Nat.two_pow_pos w), ih hq, unpack_cons, List.cons_append]

/-- A record packed field list by field list. -/
theorem pack_append {ws vs : List ℕ} (hlen : ws.length = vs.length) (us xs : List ℕ) :
    pack (ws ++ us) (vs ++ xs) = pack ws vs + 2 ^ ws.sum * pack us xs := by
  induction ws generalizing vs with
  | nil =>
    have hvs : vs = [] := by simpa using hlen.symm
    simp [hvs, pack]
  | cons w ws ih =>
    cases vs with
    | nil => simp at hlen
    | cons v vs =>
      have hlen' : ws.length = vs.length := by simpa using hlen
      simp only [List.cons_append, pack, ih hlen', List.sum_cons, Nat.pow_add]
      ring

/-! ## Bytes -/

/-- The little-endian value of a byte string. -/
def leValue : List UInt8 → ℕ
  | [] => 0
  | b :: bs => b.toNat + 256 * leValue bs

/-- The first `k` bytes of a number, least significant first. -/
def leBytes : ℕ → ℕ → List UInt8
  | 0, _ => []
  | k + 1, n => UInt8.ofNat n :: leBytes k (n / 256)

@[simp] theorem length_leBytes (k n : ℕ) : (leBytes k n).length = k := by
  induction k generalizing n with
  | zero => rfl
  | succ k ih => simp [leBytes, ih]

theorem leValue_lt (bs : List UInt8) : leValue bs < 256 ^ bs.length := by
  induction bs with
  | nil => simp [leValue]
  | cons b bs ih =>
    have hb := b.toNat_lt
    rw [leValue, List.length_cons, Nat.pow_succ]
    omega

theorem leValue_append (as bs : List UInt8) :
    leValue (as ++ bs) = leValue as + 256 ^ as.length * leValue bs := by
  induction as with
  | nil => simp [leValue]
  | cons a as ih =>
    rw [List.cons_append, leValue, leValue, ih, List.length_cons, Nat.pow_succ]
    ring

/-- A number that fits in `k` bytes is the value of its first `k` bytes. -/
theorem leValue_leBytes {k n : ℕ} (h : n < 256 ^ k) : leValue (leBytes k n) = n := by
  induction k generalizing n with
  | zero =>
    have hn : n = 0 := by simpa using h
    rw [hn]
    rfl
  | succ k ih =>
    have hq : n / 256 < 256 ^ k := Nat.div_lt_of_lt_mul (by rwa [Nat.mul_comm, ← Nat.pow_succ])
    rw [leBytes, leValue, ih hq, UInt8.toNat_ofNat']
    omega

/-- A byte string is the list of the bytes of its value. -/
theorem leBytes_leValue (bs : List UInt8) : leBytes bs.length (leValue bs) = bs := by
  induction bs with
  | nil => rfl
  | cons b bs ih =>
    have hb := b.toNat_lt
    have hdiv : (b.toNat + 256 * leValue bs) / 256 = leValue bs := by omega
    have hmod : UInt8.ofNat (b.toNat + 256 * leValue bs) = b := by
      apply UInt8.toNat_inj.mp
      rw [UInt8.toNat_ofNat']
      omega
    rw [List.length_cons, leValue, leBytes, hdiv, hmod, ih]

/-- An eight-bit field at a byte boundary is that byte. -/
theorem unpack_byte (ws : List ℕ) (b : UInt8) (bs : List UInt8) :
    unpack (8 :: ws) (leValue (b :: bs)) = b.toNat :: unpack ws (leValue bs) := by
  have hb := b.toNat_lt
  have hmod : (b.toNat + 256 * leValue bs) % 2 ^ 8 = b.toNat := by omega
  have hdiv : (b.toNat + 256 * leValue bs) / 2 ^ 8 = leValue bs := by omega
  rw [leValue, unpack_cons, hmod, hdiv]

/-- A sixteen-bit field at a byte boundary is the little-endian word there. -/
theorem unpack_word (ws : List ℕ) (a b : UInt8) (bs : List UInt8) :
    unpack (16 :: ws) (leValue (a :: b :: bs)) =
      (a.toNat + 256 * b.toNat) :: unpack ws (leValue bs) := by
  have ha := a.toNat_lt
  have hb := b.toNat_lt
  have hmod : (a.toNat + 256 * (b.toNat + 256 * leValue bs)) % 2 ^ 16 =
      a.toNat + 256 * b.toNat := by omega
  have hdiv : (a.toNat + 256 * (b.toNat + 256 * leValue bs)) / 2 ^ 16 = leValue bs := by omega
  rw [leValue, leValue, unpack_cons, hmod, hdiv]

/-! ## Register fields -/

/-- A field of a register, read with a mask and a shift. -/
theorem getLsbD_field {w : ℕ} (mask reg : BitVec w) (pos i : ℕ) :
    (((mask <<< pos) &&& reg) >>> pos).getLsbD i = (mask.getLsbD i && reg.getLsbD (pos + i)) := by
  rw [BitVec.getLsbD_ushiftRight, BitVec.getLsbD_and, BitVec.getLsbD_shiftLeft,
    Nat.add_sub_cancel_left]
  by_cases hw : pos + i < w
  · simp [hw]
  · rw [BitVec.getLsbD_of_ge reg _ (not_lt.mp hw), Bool.and_false, Bool.and_false]

/-- The bits of a mask of `k` ones. -/
theorem getLsbD_ones {w k : ℕ} (hk : k ≤ w) (i : ℕ) :
    ((BitVec.allOnes k).setWidth w).getLsbD i = decide (i < k) := by
  rw [BitVec.getLsbD_setWidth, BitVec.getLsbD_allOnes]
  by_cases hi : i < k
  · simp [hi, lt_of_lt_of_le hi hk]
  · simp [hi]

end RobomasterFirmware.Lib
