import Mathlib.Data.BitVec
import Mathlib.Tactic.Common

/-!
# Fields of registers

A register is changed one field at a time: a mask is cleared and the field put in.  The
rules here say what the field under a mask is after such a step, from what the masks have
to do with each other.

`lane` is a byte of a word; words are put together byte by byte, each shifted to its lane
(`lane_or_shift`).

The side conditions are equations between masks, which are closed terms wherever a register is
described by constants; so each use of a rule is a matter of deciding one of them, and no
word has to be taken apart into its bits.
-/

namespace CannonCar.Registers

variable {w : ℕ} {x y m k : BitVec w}

/-- Clearing bits outside a field. -/
theorem and_field (keeps : k &&& m = m) : (x &&& k) &&& m = x &&& m := by
  rw [BitVec.and_assoc, keeps]

/-- Setting bits outside a field. -/
theorem or_field (apart : y &&& m = 0) : (x ||| y) &&& m = x &&& m := by
  rw [BitVec.and_or_distrib_right, apart]
  exact BitVec.or_zero

/-- Putting a field in. -/
theorem put_field (within : y &&& m = y) : (x &&& ~~~m ||| y) &&& m = y := by
  have cleared : x &&& ~~~m &&& m = 0 := by
    rw [BitVec.and_assoc, BitVec.and_comm (~~~m), BitVec.and_not_self]
    exact BitVec.and_zero
  rw [BitVec.and_or_distrib_right, cleared, within]
  exact BitVec.zero_or

/-- Registers that agree outside of other fields agree in this one. -/
theorem field_congr {k : BitVec w} (agree : x &&& k = y &&& k) (keeps : k &&& m = m) :
    x &&& m = y &&& m := by
  rw [← and_field keeps, agree, and_field keeps]

/-! ## Bytes of words -/

/-- The byte number `k`, from the low end. -/
def lane (k : ℕ) (x : BitVec 32) : BitVec 8 := (x >>> (8 * k)).setWidth 8

theorem lane_zero (k : ℕ) : lane k 0 = 0 := by
  apply BitVec.eq_of_toNat_eq
  simp [lane]

/-- A byte put into a lane. -/
theorem lane_or_shift {j k : ℕ} (inside : k < 4) (x : BitVec 32) (b : BitVec 8) :
    lane k (x ||| b.setWidth 32 <<< (8 * j)) = if k = j then lane k x ||| b else lane k x := by
  apply BitVec.eq_of_getLsbD_eq
  intro i bit
  have bound : 8 * k + i < 32 := by omega
  have bits : ∀ z : BitVec 32, (lane k z).getLsbD i = z.getLsbD (8 * k + i) := by
    intro z
    simp only [lane, BitVec.getLsbD_setWidth, BitVec.getLsbD_ushiftRight, bit, decide_true,
      Bool.true_and]
  rw [bits, BitVec.getLsbD_or, BitVec.getLsbD_shiftLeft]
  simp only [bound, decide_true, Bool.true_and, BitVec.getLsbD_setWidth]
  split_ifs with same
  · subst same
    have place : 8 * k + i - 8 * k = i := by omega
    have low : ¬ 8 * k + i < 8 * k := by omega
    have small : i < 32 := by omega
    rw [BitVec.getLsbD_or, bits, place]
    simp only [low, small, decide_false, decide_true, Bool.not_false, Bool.true_and]
  · rw [bits]
    rcases Nat.lt_or_gt_of_ne same with below | above
    · have low : 8 * k + i < 8 * j := by omega
      simp only [low, decide_true, Bool.not_true, Bool.false_and, Bool.or_false]
    · have high : 8 ≤ 8 * k + i - 8 * j := by omega
      rw [BitVec.getLsbD_of_ge b _ high, Bool.and_false, Bool.and_false, Bool.or_false]

end CannonCar.Registers
