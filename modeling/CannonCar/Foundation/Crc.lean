import Mathlib.Algebra.Polynomial.Div
import Mathlib.Algebra.Field.ZMod
import Mathlib.Data.BitVec
import Mathlib.Tactic.Common
import Mathlib.Tactic.LinearCombination
import Mathlib.Tactic.Ring

/-!
# Cyclic redundancy checks

The register of a check is a word of `w` bits, and the bits of a message enter it one after
the other at the top (`feed`): the register moves up by one, and if what falls out at the
top differs from the bit that enters, the polynomial is added.

* `serial_lead` — as many bits as the register has places can be added at the top of the
  register at once, and the register shifted afterwards (`shift`).
* `setWidth_wideShift` — a register that is wider than the check may shift on without being
  cut: the places above the top never come back.
* `toPoly_serial` — over the field of two elements, the register holds the remainder of the
  message, and of what the register started with, by the monic polynomial of degree `w`
  that the word of the check stands for.
-/

namespace Crc

variable {w : ℕ}

/-! ## Bit by bit -/

/-- One bit of a message enters. -/
def feed (g r : BitVec w) (b : Bool) : BitVec w := if r.msb ^^ b then r <<< 1 ^^^ g else r <<< 1

/-- A message enters. -/
def serial (g r : BitVec w) (bits : List Bool) : BitVec w := bits.foldl (feed g) r

/-- The bits of a word, the most significant first. -/
def bitsOf {k : ℕ} (x : BitVec k) : List Bool := (List.range k).map x.getMsbD

theorem serial_append (g r : BitVec w) (bits more : List Bool) :
    serial g r (bits ++ more) = serial g (serial g r bits) more := List.foldl_append

/-! ## Word by word -/

/-- The register moves up by one. -/
def shift (g r : BitVec w) : BitVec w := feed g r false

theorem shift_xor (g r y : BitVec w) : shift g (r ^^^ y) = feed g r y.msb ^^^ y <<< 1 := by
  unfold shift feed
  rw [BitVec.msb_xor, Bool.xor_false, BitVec.shiftLeft_xor_distrib]
  split_ifs
  · rw [BitVec.xor_assoc, BitVec.xor_assoc, BitVec.xor_comm g]
  · rfl

/-- The leading bits of `y`, of which there are no others, enter at once. -/
theorem serial_lead (g : BitVec w) (n : ℕ) (r y : BitVec w) (lead : y <<< n = 0) :
    serial g r ((List.range n).map y.getMsbD) = (shift g)^[n] (r ^^^ y) := by
  induction n generalizing r y with
  | zero =>
      have zero : y = 0#w := by simpa using lead
      simp [serial, zero]
  | succ n ih =>
      -- the first bit of `y` enters, and the others move up with the register
      have rest : y <<< 1 <<< n = 0 := by rw [← BitVec.shiftLeft_add, Nat.add_comm, lead]
      have bits : (List.range (n + 1)).map y.getMsbD =
          y.msb :: (List.range n).map (y <<< 1).getMsbD := by
        rw [List.range_succ_eq_map, List.map_cons, List.map_map]
        congr 1
        apply List.map_congr_left
        intro i _
        simp only [Function.comp_apply, BitVec.getMsbD_shiftLeft, Nat.succ_eq_add_one,
          Nat.add_comm i 1]
      rw [bits, serial, List.foldl_cons, ← serial, ih _ _ rest, Function.iterate_succ_apply,
        shift_xor]

/-- A word enters at once. -/
theorem serial_bitsOf {k : ℕ} (fits : k ≤ w) (g r : BitVec w) (x : BitVec k) :
    serial g r (bitsOf x) = (shift g)^[k] (r ^^^ x.setWidth w <<< (w - k)) := by
  have lead : x.setWidth w <<< (w - k) <<< k = 0 := by
    rw [← BitVec.shiftLeft_add, Nat.sub_add_cancel fits]
    exact BitVec.shiftLeft_eq_zero le_rfl
  rw [← serial_lead g k r _ lead, bitsOf]
  congr 1
  apply List.map_congr_left
  intro i mem
  have lt := List.mem_range.mp mem
  have place : w - k + i + k - w = i := by omega
  rw [BitVec.getMsbD_shiftLeft, BitVec.getMsbD_setWidth, Nat.add_comm i]
  simp only [place, Nat.le_add_right, decide_true, Bool.true_and]

/-! ## A wider register -/

section Wide

variable {v : ℕ} (fits : w ≤ v)

include fits

theorem setWidth_shiftLeft_one (x : BitVec v) : (x <<< 1).setWidth w = x.setWidth w <<< 1 := by
  apply BitVec.eq_of_getLsbD_eq
  intro i lt
  have low : i < v := lt.trans_le fits
  have before : i - 1 < w := by omega
  simp only [BitVec.getLsbD_setWidth, BitVec.getLsbD_shiftLeft, lt, low, before, decide_true,
    Bool.true_and]

/-- One step of the wider register, cut to the width of the check. -/
theorem setWidth_wideShift (g x : BitVec v) :
    (if (x.setWidth w).msb then x <<< 1 ^^^ g else x <<< 1).setWidth w =
      shift (g.setWidth w) (x.setWidth w) := by
  unfold shift feed
  rw [Bool.xor_false]
  split_ifs
  · rw [BitVec.setWidth_xor, setWidth_shiftLeft_one fits]
  · exact setWidth_shiftLeft_one fits x

end Wide

/-! ## The remainder -/

open Polynomial

/-- A bit as an element of the field. -/
def bit (b : Bool) : ZMod 2 := if b then 1 else 0

theorem bit_xor (a b : Bool) : bit (a ^^ b) = bit a + bit b := by
  revert a b
  decide

/-- The word as a polynomial of degree below `w`. -/
noncomputable def toPoly (x : BitVec w) : (ZMod 2)[X] :=
  ∑ i ∈ Finset.range w, C (bit (x.getLsbD i)) * X ^ i

/-- The monic polynomial of degree `w` with the word as its lower places. -/
noncomputable def generator (g : BitVec w) : (ZMod 2)[X] := X ^ w + toPoly g

/-- A message as a polynomial, the first bit being its leading coefficient. -/
noncomputable def message : List Bool → (ZMod 2)[X]
  | [] => 0
  | b :: bits => C (bit b) * X ^ bits.length + message bits

theorem coeff_toPoly (x : BitVec w) (i : ℕ) : (toPoly x).coeff i = bit (x.getLsbD i) := by
  simp only [toPoly, finsetSum_coeff, coeff_C_mul, coeff_X_pow, mul_ite, mul_one, mul_zero]
  rw [Finset.sum_ite_eq (Finset.range w) i]
  split_ifs with inside
  · rfl
  · rw [BitVec.getLsbD_of_ge x i (not_lt.mp fun lt => inside (Finset.mem_range.mpr lt))]
    rfl

theorem toPoly_xor (x y : BitVec w) : toPoly (x ^^^ y) = toPoly x + toPoly y := by
  ext i
  rw [coeff_add, coeff_toPoly, coeff_toPoly, coeff_toPoly, BitVec.getLsbD_xor, bit_xor]

theorem degree_toPoly_lt (x : BitVec w) : (toPoly x).degree < w := by
  rw [degree_lt_iff_coeff_zero]
  intro i above
  rw [coeff_toPoly, BitVec.getLsbD_of_ge x i above]
  rfl

theorem generator_monic (g : BitVec w) : (generator g).Monic :=
  monic_X_pow_add (degree_toPoly_lt g)

theorem degree_generator (g : BitVec w) : (generator g).degree = w := by
  have lead : (X ^ w : (ZMod 2)[X]).degree = w := degree_X_pow w
  rw [generator, degree_add_eq_left_of_degree_lt (lead.symm ▸ degree_toPoly_lt g), lead]

/-- Moving up by one multiplies by `X`, up to the bit that falls out. -/
theorem toPoly_shiftLeft_one (x : BitVec w) :
    toPoly (x <<< 1) = X * toPoly x + C (bit x.msb) * X ^ w := by
  ext i
  rw [coeff_add, coeff_toPoly, coeff_C_mul, coeff_X_pow, BitVec.getLsbD_shiftLeft]
  cases i with
  | zero =>
      rw [mul_coeff_zero, coeff_X_zero, zero_mul, zero_add]
      by_cases empty : w = 0
      · subst empty
        simp [bit, BitVec.eq_nil x]
      · rw [if_neg (Ne.symm empty), mul_zero]
        simp [bit]
  | succ i =>
      rw [coeff_X_mul, coeff_toPoly, Nat.add_sub_cancel]
      have low : ¬ i + 1 < 1 := by omega
      -- the place `w`, where the bit that falls out would be, has to cancel
      rcases lt_trichotomy (i + 1) w with inside | top | above
      · have other : i + 1 ≠ w := by omega
        simp only [inside, low, other, decide_true, decide_false, Bool.not_false, Bool.true_and,
          if_false, mul_zero, add_zero]
      · have last : x.msb = x.getLsbD i := by
          rw [BitVec.msb_eq_getLsbD_last]
          congr 1
          omega
        have twice : bit (x.getLsbD i) + bit (x.getLsbD i) = 0 := by
          rw [← bit_xor, Bool.xor_self]
          rfl
        simp only [top, lt_irrefl, decide_false, Bool.false_and, if_true, mul_one, last, twice]
        rfl
      · have outside : ¬ i + 1 < w := not_lt.mpr above.le
        have other : i + 1 ≠ w := above.ne'
        rw [BitVec.getLsbD_of_ge x i (Nat.lt_succ_iff.mp above)]
        simp only [outside, other, decide_false, Bool.false_and, if_false, mul_zero, add_zero]

/-- What one bit does to the register, modulo the generator. -/
theorem generator_dvd_feed (g r : BitVec w) (b : Bool) :
    generator g ∣ X * toPoly r + C (bit b) * X ^ w - toPoly (feed g r b) := by
  have out : toPoly (feed g r b) =
      X * toPoly r + C (bit b) * X ^ w + C (bit (r.msb ^^ b)) * generator g := by
    have cancel : C (bit b) * X ^ w + C (bit b) * X ^ w = (0 : (ZMod 2)[X]) := by
      rw [← add_mul, ← C_add, ← bit_xor, Bool.xor_self]
      simp [bit]
    have split : toPoly (feed g r b) =
        X * toPoly r + C (bit r.msb) * X ^ w + C (bit (r.msb ^^ b)) * toPoly g := by
      unfold feed
      split_ifs with carry
      · rw [toPoly_xor, toPoly_shiftLeft_one, carry]
        simp [bit]
      · rw [toPoly_shiftLeft_one, Bool.eq_false_of_not_eq_true carry]
        simp [bit]
    rw [split, generator, bit_xor, C_add]
    linear_combination -cancel
  rw [out]
  exact ⟨-C (bit (r.msb ^^ b)), by ring⟩

/-- **The register holds the remainder** of what it started with, moved up by the length of
the message, and of the message, moved up by the width of the register. -/
theorem toPoly_serial (g r : BitVec w) (bits : List Bool) :
    toPoly (serial g r bits) =
      (X ^ bits.length * toPoly r + X ^ w * message bits) %ₘ generator g := by
  have congruent : generator g ∣
      X ^ bits.length * toPoly r + X ^ w * message bits - toPoly (serial g r bits) := by
    induction bits generalizing r with
    | nil => simp [serial, message]
    | cons b bits ih =>
        -- what one bit leaves over is multiplied by what the later ones do to it
        have step := Dvd.dvd.mul_left (generator_dvd_feed g r b) (X ^ bits.length)
        have sum := dvd_add step (ih (feed g r b))
        have serial_cons : serial g r (b :: bits) = serial g (feed g r b) bits := rfl
        rw [serial_cons, message, List.length_cons]
        convert sum using 1
        ring
  have small : (toPoly (serial g r bits)).degree < (generator g).degree := by
    rw [degree_generator]
    exact degree_toPoly_lt _
  rw [modByMonic_eq_of_dvd_sub (generator_monic g) congruent,
    (modByMonic_eq_self_iff (generator_monic g)).mpr small]

end Crc
