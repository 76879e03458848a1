import Mathlib.Algebra.BigOperators.Group.Finset.Basic
import Mathlib.Algebra.Order.BigOperators.Group.Finset
import Mathlib.Tactic.Common

/-!
# Positions in consecutive stretches

Stretches of the lengths `len 0`, `len 1`, … lie one behind the other, and a position is
counted from one: either through all of them, or as the number of its stretch and a
position in that.  Years divided into months and months into days are such.

`position_lt_iff` says that the two ways of counting order the positions alike; `walk`
goes from the first to the second by subtraction.

The lengths need not be alike, and there is no last stretch: `walk` ends because every length
is positive, so that as many rounds as the position is far are enough.
-/

namespace CannonCar.Stretches

variable (len : ℕ → ℕ)

/-- What lies before the stretch number `k`. -/
def before (k : ℕ) : ℕ := ∑ i ∈ Finset.range k, len i

theorem before_zero : before len 0 = 0 := Finset.sum_range_zero len

theorem before_succ (k : ℕ) : before len (k + 1) = before len k + len k :=
  Finset.sum_range_succ len k

theorem before_mono {j k : ℕ} (le : j ≤ k) : before len j ≤ before len k :=
  Finset.sum_le_sum_of_subset (Finset.range_mono le)

theorem le_before (positive : ∀ k, 0 < len k) (k : ℕ) : k ≤ before len k := by
  induction k with
  | zero => exact Nat.zero_le _
  | succ k ih =>
      rw [before_succ]
      exact Nat.add_le_add ih (positive k)

variable {len} {k r k' r' : ℕ}

/-- A position lies behind all of the stretches before its own. -/
theorem position_lt (inside : r ≤ len k) (some_ : 1 ≤ r') (less : k < k') :
    before len k + r < before len k' + r' := by
  have upto : before len k + len k ≤ before len k' := by
    rw [← before_succ]
    exact before_mono len less
  omega

/-- **Positions are ordered by their stretches first.** -/
theorem position_lt_iff (some_ : 1 ≤ r) (inside : r ≤ len k) (some' : 1 ≤ r')
    (inside' : r' ≤ len k') :
    before len k + r < before len k' + r' ↔ k < k' ∨ k = k' ∧ r < r' := by
  rcases lt_trichotomy k k' with less | rfl | more
  · exact iff_of_true (position_lt inside some' less) (Or.inl less)
  · simp only [lt_irrefl, true_and, false_or, Nat.add_lt_add_iff_left]
  · have reverse := position_lt inside' some_ more
    constructor
    · exact fun less => absurd less (lt_asymm reverse)
    · rintro (less | ⟨rfl, -⟩)
      · exact absurd less (lt_asymm more)
      · exact absurd more (lt_irrefl k)

/-! ## Walking -/

variable (len)

/-- Take stretches off from the one number `k` on while the position is behind them. -/
def walk : ℕ → ℕ → ℕ → ℕ × ℕ
  | 0, k, n => (k, n)
  | fuel + 1, k, n => if len k < n then walk fuel (k + 1) (n - len k) else (k, n)

variable {len}

/-- **The walk finds the position.** -/
theorem walk_spec (positive : ∀ k, 0 < len k) {fuel : ℕ} (k : ℕ) {n : ℕ} (enough : n ≤ fuel) :
    let r := walk len fuel k n
    before len r.1 + r.2 = before len k + n ∧ r.2 ≤ len r.1 ∧ k ≤ r.1 ∧ (0 < n → 0 < r.2) := by
  induction fuel generalizing k n with
  | zero =>
      obtain rfl := Nat.le_zero.mp enough
      exact ⟨rfl, Nat.zero_le _, le_rfl, id⟩
  | succ fuel ih =>
      rw [walk]
      split_ifs with behind
      · have some_ := positive k
        obtain ⟨same, inside, after, rest⟩ := ih (k + 1) (n := n - len k) (by omega)
        refine ⟨?_, inside, by omega, fun _ => rest (by omega)⟩
        rw [same, before_succ]
        omega
      · exact ⟨rfl, not_lt.mp behind, le_rfl, id⟩

/-- A walk that starts no further than a bound on the whole ends before that bound. -/
theorem walk_lt (positive : ∀ k, 0 < len k) {fuel n bound : ℕ} (enough : n ≤ fuel)
    (some_ : 0 < n) (upto : n ≤ before len bound) : (walk len fuel 0 n).1 < bound := by
  obtain ⟨same, -, -, rest⟩ := walk_spec positive 0 enough
  rw [before_zero, Nat.zero_add] at same
  have place := rest some_
  by_contra behind
  have mono := before_mono len (not_lt.mp behind)
  omega

end CannonCar.Stretches
