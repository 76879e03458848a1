import CannonCar.Ctrl.SteerFit

/-!
# The extremes of the steering fit

`SteerFit` reads the fit of `streePID` as an exact quartic.  The servo is moved by what the
target computes, eleven roundings and a saturating conversion later, and its range has to be
settled there too.  What is needed of the fit is little and the same in both readings: its
least value is that of `int`, where it saturates; its greatest is 20079, at a difference of
17; and it is never between -40 and 40.

`SteerArithmetic` lists what is asked of an arithmetic for this.  Up to a difference of 24
the fit is computed, one value after the other (`central`).  From 25 on the fourth power
outweighs the others by more than all roundings together, so that the fit is negative
(`streeFit_outer`); this is where the bounds on the four coefficients come in.
-/

namespace CannonCar

open MachineInt FloatModel

/-- IEEE rounding with saturating conversions, and what it makes of the coefficients and of the
fit at small differences. -/
structure SteerArithmetic (fm : FloatModel) : Prop where
  rounds : fm.Rounds
  near : fm.Near
  saturates : fm.Saturates
  rnd_least : fm.rnd (-2147483648) = -2147483648
  p1 : fm.rnd (-fm.rndD (2492 / 10000)) ≤ -(249 / 1000)
  p2 : 0 ≤ fm.rnd (fm.rndD (9905 / 10000)) ∧ fm.rnd (fm.rndD (9905 / 10000)) ≤ 991 / 1000
  p3 : 0 ≤ fm.rnd (fm.rndD (1248 / 10)) ∧ fm.rnd (fm.rndD (1248 / 10)) ≤ 125
  p4 : fm.rnd (-fm.rndD (4071 / 100)) ≤ -40
  central : ∀ a < 49, streeFit fm ((a : ℕ) - 24) ≤ 20079 ∧
    (streeFit fm ((a : ℕ) - 24) ≤ -40 ∨ 40 ≤ streeFit fm ((a : ℕ) - 24))
  greatest : streeFit fm 17 = 20079
  least : streeFit fm 4035 = -2147483648

theorem steerArithmetic_exact : SteerArithmetic .exact where
  rounds := isExact_exact.rounds
  near := isExact_exact.near
  saturates := saturates_exact
  rnd_least := rfl
  p1 := by decide +kernel
  p2 := by decide +kernel
  p3 := by decide +kernel
  p4 := by decide +kernel
  central := by decide +kernel
  greatest := by decide +kernel
  least := by decide +kernel

theorem steerArithmetic_cortexM4 : SteerArithmetic .cortexM4 where
  rounds := rounds_cortexM4
  near := near_cortexM4
  saturates := saturates_cortexM4
  rnd_least := by decide +kernel
  p1 := by decide +kernel
  p2 := by decide +kernel
  p3 := by decide +kernel
  p4 := by decide +kernel
  central := by decide +kernel
  greatest := by decide +kernel
  least := by decide +kernel

variable {fm : FloatModel}

/-! ## Products, rounded -/

section Products

variable (near : fm.Near)
include near

/-- A rounded magnitude grows little. -/
theorem abs_rnd_le {q b : ℚ} (le : |q| ≤ b) : |fm.rnd q| ≤ (1 + 1 / 2 ^ 23) * b := by
  have apart := near q
  have triangle := abs_sub_abs_le_abs_sub (fm.rnd q) q
  linarith

/-- A rounded magnitude shrinks little. -/
theorem le_abs_rnd {q b : ℚ} (le : b ≤ |q|) : (1 - 1 / 2 ^ 23) * b ≤ |fm.rnd q| := by
  have apart := near q
  have triangle := abs_sub_abs_le_abs_sub q (fm.rnd q)
  rw [abs_sub_comm] at triangle
  linarith

/-- One more factor, rounded: what grew. -/
theorem abs_rnd_mul_le {q n b : ℚ} (le : |q| ≤ b) :
    |fm.rnd (q * n)| ≤ (1 + 1 / 2 ^ 23) * (b * |n|) := by
  refine abs_rnd_le near ?_
  rw [abs_mul]
  exact mul_le_mul_of_nonneg_right le (abs_nonneg n)

/-- One more factor, rounded: what is left. -/
theorem le_abs_rnd_mul {q n b : ℚ} (le : b ≤ |q|) :
    (1 - 1 / 2 ^ 23) * (b * |n|) ≤ |fm.rnd (q * n)| := by
  refine le_abs_rnd near ?_
  rw [abs_mul]
  exact mul_le_mul_of_nonneg_right le (abs_nonneg n)

end Products

section Signs

variable (h : fm.Rounds)
include h

theorem rnd_nonpos {q : ℚ} (nonpos : q ≤ 0) : fm.rnd q ≤ 0 := h.rnd_le h.rnd_zero nonpos

/-- Rounding keeps the sign of a product. -/
theorem rnd_mul_nonpos {q n : ℚ} (nonpos : q * n ≤ 0) : fm.rnd q * n ≤ 0 := by
  rcases mul_nonpos_iff.mp nonpos with ⟨up, down⟩ | ⟨down, up⟩
  · exact mul_nonpos_of_nonneg_of_nonpos (h.le_rnd h.rnd_zero up) down
  · exact mul_nonpos_of_nonpos_of_nonneg (rnd_nonpos h down) up

end Signs

/-! ## Beyond 24 -/

/-- The four sums, where the fourth power outweighs the others. -/
theorem sums_le (arith : SteerArithmetic fm) {t4 t3 t2 p4 m : ℚ} (far : 25 ≤ m)
    (fourth : t4 ≤ -(2489 / 10000 * m ^ 4)) (third : t3 ≤ 992 / 1000 * m ^ 3)
    (second : t2 ≤ 1251 / 10 * m ^ 2) (constant : p4 ≤ -40) :
    fm.rnd (fm.rnd (fm.rnd (t4 + t3) + t2) + p4) ≤ -40 := by
  have square : (625 : ℚ) ≤ m ^ 2 := by nlinarith
  have weigh : 0 ≤ 2489 / 10000 * m ^ 2 - 992 / 1000 * m - 1252 / 10 := by nlinarith
  -- the first sum is below what the second power adds, with a tenth to spare
  have first : t4 + t3 ≤ -(1252 / 10 * m ^ 2) := by
    nlinarith [mul_nonneg (by linarith : (0 : ℚ) ≤ m ^ 2) weigh]
  have rounded : fm.rnd (t4 + t3) ≤ -(1252 / 10 * m ^ 2) - -(1252 / 10 * m ^ 2) / 2 ^ 23 :=
    (arith.rounds.mono first).trans (arith.near.rnd_le_of_nonpos (by linarith))
  have sum : fm.rnd (t4 + t3) + t2 ≤ 0 := by
    have slack : (0 : ℚ) ≤ m ^ 2 := by linarith
    linarith
  have kept : fm.rnd (-40) = -40 := by
    have forty := arith.rounds.rnd_intCast (-40) (by decide)
    exact_mod_cast forty
  exact arith.rounds.rnd_le kept (by linarith [rnd_nonpos arith.rounds sum])

/-- The first term, whose sign no rounding changes. -/
theorem fourth_le (h : fm.Rounds) (near : fm.Near) {c : ℚ} (coefficient : c ≤ -(249 / 1000))
    (x : ℚ) : fm.rnd (fm.rnd (fm.rnd (fm.rnd (c * x) * x) * x) * x) ≤
      -(2489 / 10000 * |x| ^ 4) := by
  have square : x * x = |x| ^ 2 := by rw [sq_abs, sq]
  have negative : fm.rnd (fm.rnd (fm.rnd (c * x) * x) * x) * x ≤ 0 := by
    have odd : c * x * x ≤ 0 := by
      rw [mul_assoc, square]
      exact mul_nonpos_of_nonpos_of_nonneg (by linarith) (by positivity)
    have even : fm.rnd (fm.rnd (c * x) * x) ≤ 0 := rnd_nonpos h (rnd_mul_nonpos h odd)
    refine rnd_mul_nonpos h ?_
    rw [mul_assoc, square]
    exact mul_nonpos_of_nonpos_of_nonneg even (by positivity)
  have magnitude : 249 / 1000 ≤ |c| := by
    rw [abs_of_nonpos (by linarith)]
    linarith
  have size := le_abs_rnd_mul near (n := x) (le_abs_rnd_mul near (n := x)
    (le_abs_rnd_mul near (n := x) (le_abs_rnd_mul near (n := x) magnitude)))
  rw [abs_of_nonpos (rnd_nonpos h negative)] at size
  have power : (0 : ℚ) ≤ |x| ^ 4 := by positivity
  nlinarith

/-- The second term. -/
theorem third_le (near : fm.Near) {c : ℚ} (nonneg : 0 ≤ c) (coefficient : c ≤ 991 / 1000)
    (x : ℚ) : fm.rnd (fm.rnd (fm.rnd (c * x) * x) * x) ≤ 992 / 1000 * |x| ^ 3 := by
  have magnitude : |c| ≤ 991 / 1000 := by rwa [abs_of_nonneg nonneg]
  have size := abs_rnd_mul_le near (n := x)
    (abs_rnd_mul_le near (n := x) (abs_rnd_mul_le near (n := x) magnitude))
  have power : (0 : ℚ) ≤ |x| ^ 3 := by positivity
  refine (le_abs_self _).trans (size.trans ?_)
  nlinarith

/-- The third term. -/
theorem second_le (near : fm.Near) {c : ℚ} (nonneg : 0 ≤ c) (coefficient : c ≤ 125) (x : ℚ) :
    fm.rnd (fm.rnd (c * x) * x) ≤ 1251 / 10 * |x| ^ 2 := by
  have magnitude : |c| ≤ 125 := by rwa [abs_of_nonneg nonneg]
  have size := abs_rnd_mul_le near (n := x) (abs_rnd_mul_le near (n := x) magnitude)
  have power : (0 : ℚ) ≤ |x| ^ 2 := by positivity
  refine (le_abs_self _).trans (size.trans ?_)
  nlinarith

/-- **Beyond 24 the fit is negative**, and far from zero. -/
theorem streeFit_outer (arith : SteerArithmetic fm) {n : ℤ} (far : 25 ≤ |n|)
    (small : |n| ≤ 2 ^ 24) : streeFit fm n ≤ -40 := by
  have m : (25 : ℚ) ≤ |(n : ℚ)| := by exact_mod_cast far
  unfold streeFit
  dsimp only
  rw [arith.rounds.rnd_intCast n small]
  have sums := sums_le arith m (fourth_le arith.rounds arith.near arith.p1 n)
    (third_le arith.near arith.p2.1 arith.p2.2 n) (second_le arith.near arith.p3.1 arith.p3.2 n)
    arith.p4
  have truncated : trunc (-40) = -40 := by decide +kernel
  have low := trunc_mono sums
  rw [truncated] at low
  have saturated : ∀ v : ℤ, v ≤ -40 → saturateSigned 32 v ≤ -40 := by
    intro v low
    unfold saturateSigned
    norm_num
    omega
  rw [arith.saturates]
  exact saturated _ low

/-! ## The extremes -/

section Extremes

variable (arith : SteerArithmetic fm) {n : ℤ} (small : |n| ≤ 2 ^ 24)
include arith

theorem le_streeFit (n : ℤ) : -2147483648 ≤ streeFit fm n := by
  unfold streeFit
  dsimp only
  rw [arith.saturates]
  exact le_max_left _ _

include small

/-- What is not computed is negative. -/
theorem streeFit_cases :
    streeFit fm n ≤ 20079 ∧ (streeFit fm n ≤ -40 ∨ 40 ≤ streeFit fm n) := by
  rcases lt_or_ge |n| 25 with inner | outer
  · obtain ⟨low, high⟩ := abs_lt.mp inner
    obtain ⟨a, rfl⟩ : ∃ a : ℕ, n = a - 24 := ⟨(n + 24).toNat, by omega⟩
    exact arith.central a (by omega)
  · have negative := streeFit_outer arith outer small
    exact ⟨by omega, Or.inl negative⟩

/-- The error `streePID` works with, between the extremes. -/
theorem rnd_streeFit_mem :
    -2147483648 ≤ fm.rnd (streeFit fm n) ∧ fm.rnd (streeFit fm n) ≤ 20079 := by
  have low : ((-2147483648 : ℤ) : ℚ) ≤ streeFit fm n := by exact_mod_cast le_streeFit arith n
  have high : (streeFit fm n : ℚ) ≤ (20079 : ℤ) := by
    exact_mod_cast (streeFit_cases arith small).1
  have kept := arith.rounds.rnd_intCast 20079 (by decide)
  push_cast at low high kept
  exact ⟨arith.rounds.le_rnd arith.rnd_least low, arith.rounds.rnd_le kept high⟩

/-- The error is never small. -/
theorem rnd_streeFit_far : fm.rnd (streeFit fm n) ≤ -40 ∨ 40 ≤ fm.rnd (streeFit fm n) := by
  have kept := fun k : ℤ => arith.rounds.rnd_intCast k
  have down := kept (-40) (by decide)
  have up := kept 40 (by decide)
  push_cast at down up
  rcases (streeFit_cases arith small).2 with low | high
  · exact Or.inl (arith.rounds.rnd_le down (by exact_mod_cast low))
  · exact Or.inr (arith.rounds.le_rnd up (by exact_mod_cast high))

end Extremes

theorem rnd_streeFit_greatest (arith : SteerArithmetic fm) :
    fm.rnd (streeFit fm 17) = 20079 := by
  rw [arith.greatest]
  exact_mod_cast arith.rounds.rnd_intCast 20079 (by decide)

theorem rnd_streeFit_least (arith : SteerArithmetic fm) :
    fm.rnd (streeFit fm 4035) = -2147483648 := by
  rw [arith.least]
  exact_mod_cast arith.rnd_least

end CannonCar
