import CannonCar.Ctrl.Steer

/-!
# The fit of the steering controller

`streePID` in exact rationals.  Its four coefficients are those of the cubic in the
commented-out line below the assignment, but the assignment multiplies one more factor
`nowValue` into the first three terms: what it evaluates is a quartic with no linear term.

Two things follow.  The quartic leaves `int` at a difference of 307 one way and 305 the
other, where the cubic would do so above 2000 (`streePID_inRange_iff`); and it is even in all
but its small third-order term, so it does not tell the sides of the line apart
(`streePID_cubic_iff`).

## The range, by inputs and by gains

Inside its range the quartic lies between -2144844815, at a difference of 306, and 20079, at
17.  No weighted error leaves `int` then, and their sum does so only below: when a call with a
large difference comes behind one with a small difference and both gains are near the top of
the menu.  So the range is decided by pairs of consecutive inputs, and there are two ways to
say by which.

Over all gains, `2 * quarticParts n - quarticParts last` decides: it is twenty thousand times
the sum of the two errors, and the bound on it does not have to be sharp, because no pair of
differences comes near it (`parts_gap`).  Over all inputs, the pair of the two extremes
decides, and what is asked is one inequality of the two gains (`gains_iff`).
-/

namespace CannonCar

open MachineInt Trajectory FloatModel

variable (fm : FloatModel)

/-! ## Sequences of calls -/

/-- A call of `streePID`, with the gains it reads. -/
structure StreeCall where
  streepid : PID
  nowValue : ℤ

/-- Calls with the gains `g` and the differences `n`. -/
def streeCalls (g : ℕ → PID) (n : ℕ → ℤ) : ℕ → StreeCall := fun k => ⟨g k, n k⟩

def streeStep (st : SteerState) (c : StreeCall) : SteerState :=
  streePID fm c.streepid c.nowValue st

/-- The globals before the `k`-th of a sequence of calls. -/
def streeAt (calls : ℕ → StreeCall) (k : ℕ) : SteerState :=
  orbit (streeStep fm) SteerState.init calls k

/-- The expression assigned to `int x`, in exact rationals. -/
def fittedQuartic (n : ℤ) : ℚ :=
  -2492 / 10000 * n ^ 4 + 9905 / 10000 * n ^ 3 + 1248 / 10 * n ^ 2 - 4071 / 100

/-- The cubic of the commented-out line. -/
def fittedCubic (n : ℤ) : ℚ :=
  -2492 / 10000 * n ^ 3 + 9905 / 10000 * n ^ 2 + 1248 / 10 * n - 4071 / 100

/-- The deflection asked for at the error `x` after the error `last`. -/
def streeTurn (streepid : PID) (x last : ℤ) : ℤ :=
  trunc (streepid.p / 100 * x) + trunc (streepid.d / 100 * (x - last))

/-- The error of the call before the `k`-th, zero before the first. -/
def lastError (fit : ℤ → ℚ) (calls : ℕ → StreeCall) : ℕ → ℤ
  | 0 => 0
  | k + 1 => trunc (fit (calls k).nowValue)

/-- Every conversion and the sum of a call stay within `int`. -/
structure StreeInRange (c : StreeCall) (st : SteerState) : Prop where
  x : FitsSigned 32 (trunc (fittedQuartic c.nowValue))
  kpvalue : FitsSigned 32 (trunc (c.streepid.p / 100 * streeFit fm c.nowValue))
  kdvalue : FitsSigned 32 (trunc (c.streepid.d / 100 * (streeFit fm c.nowValue - st.error1)))
  sum : FitsSigned 32 (median + trunc (c.streepid.p / 100 * streeFit fm c.nowValue) +
    trunc (c.streepid.d / 100 * (streeFit fm c.nowValue - st.error1)))

variable {fm}

/-! ## One call -/

/-- Without rounding, the assignment evaluates the quartic. -/
theorem streeFit_eq (exact_ : fm.IsExact) (n : ℤ) : streeFit fm n = fm.toI32 (fittedQuartic n) := by
  simp only [streeFit, exact_.rnd_eq, exact_.rndD_eq]
  congr 1
  rw [fittedQuartic]
  ring

theorem streeFit_of_fits (exact_ : fm.IsExact) {n : ℤ}
    (fits : FitsSigned 32 (trunc (fittedQuartic n))) :
    streeFit fm n = trunc (fittedQuartic n) := by
  rw [streeFit_eq exact_, fm.toI32_of_fits fits]

/-- A call that stays in range, in terms of its two errors. -/
theorem streePID_of_inRange (exact_ : fm.IsExact) {c : StreeCall} {st : SteerState} {last : ℤ}
    (range : StreeInRange fm c st) (error1 : st.error1 = last) :
    (streeStep fm st c).resultturn =
      median + streeTurn c.streepid (trunc (fittedQuartic c.nowValue)) last := by
  obtain ⟨x, kpvalue, kdvalue, sum⟩ := range
  have fit := streeFit_of_fits exact_ x
  rw [error1, fit] at kdvalue sum
  rw [fit] at kpvalue
  have gain : ∀ g : ℚ, streeGain fm g = g / 100 := by
    intro g
    rw [streeGain, exact_.rnd_eq, exact_.rndD_eq, exact_.rndD_eq]
    ring
  simp only [streeStep, streePID, exact_.rnd_eq, gain, fit, error1, fm.toI32_of_fits kpvalue,
    fm.toI32_of_fits kdvalue, toSigned_eq_self sum, streeTurn]
  ring

/-! ## The range of the quartic -/

theorem fits_trunc_iff (q : ℚ) : FitsSigned 32 (trunc q) ↔ -2147483649 < q ∧ q < 2147483648 := by
  have low := lt_trunc_iff (n := -2147483649) (by decide) q
  have high := trunc_lt_iff (n := 2147483648) (by decide) q
  push_cast at low high
  rw [← low, ← high, FitsSigned]
  norm_num
  omega

/-- The quartic in ten thousandths. -/
def quarticParts (n : ℤ) : ℤ := -2492 * n ^ 4 + 9905 * n ^ 3 + 1248000 * n ^ 2 - 407100

theorem fittedQuartic_eq (n : ℤ) : fittedQuartic n = quarticParts n / 10000 := by
  rw [fittedQuartic, quarticParts]
  push_cast
  ring

/-- The cubic in ten thousandths. -/
def cubicParts (n : ℤ) : ℤ := -2492 * n ^ 3 + 9905 * n ^ 2 + 1248000 * n - 407100

theorem fittedCubic_eq (n : ℤ) : fittedCubic n = cubicParts n / 10000 := by
  rw [fittedCubic, cubicParts]
  push_cast
  ring

theorem lt_fittedQuartic_iff (b n : ℤ) :
    (b : ℚ) < fittedQuartic n ↔ 10000 * b < quarticParts n := by
  rw [fittedQuartic_eq, lt_div_iff₀ (by norm_num), mul_comm]
  norm_cast

theorem fittedQuartic_lt_iff (b n : ℤ) : fittedQuartic n < b ↔ quarticParts n < 10000 * b := by
  rw [fittedQuartic_eq, div_lt_iff₀ (by norm_num), mul_comm]
  norm_cast

/-- The quartic is bounded above: completing the square leaves a positive quadratic. -/
theorem fittedQuartic_lt (n : ℤ) : fittedQuartic n < 1000000 := by
  have bound : quarticParts n < 10000 * 1000000 := by
    unfold quarticParts
    nlinarith [sq_nonneg (4984 * n ^ 2 - 9905 * n - 1300000), sq_nonneg (n + 31)]
  exact_mod_cast (fittedQuartic_lt_iff 1000000 n).mpr bound

/-- At a difference of 307 or more, or -305 or less, the quartic is below `int`: counted
from there, none of its terms is positive. -/
theorem fittedQuartic_far {n : ℤ} (far : 307 ≤ n ∨ n ≤ -305) : fittedQuartic n ≤ -2147483649 := by
  have counted : ∃ k : ℕ, n = 307 + k ∨ n = -305 - k := by
    rcases far with right | left
    · exact ⟨(n - 307).toNat, by omega⟩
    · exact ⟨(-305 - n).toNat, by omega⟩
  obtain ⟨k, shifted⟩ := counted
  have first : (0 : ℚ) ≤ k := Nat.cast_nonneg k
  have second := pow_nonneg first 2
  have third := pow_nonneg first 3
  have fourth := pow_nonneg first 4
  rcases shifted with rfl | rfl
  · rw [fittedQuartic]
    push_cast
    linarith
  · rw [fittedQuartic]
    push_cast
    linarith

/-- Between these it stays above a bound that leaves room for the difference of two.  Divided
by `(n + 304) * (306 - n)`, it leaves a positive quadratic and a line. -/
theorem lt_fittedQuartic {n : ℤ} (low : -304 ≤ n) (high : n ≤ 306) :
    -2144844816 < fittedQuartic n := by
  have between : 0 ≤ (n + 304) * (306 - n) := mul_nonneg (by omega) (by omega)
  have factor : 0 ≤ 2492 * n ^ 2 - 4921 * n + 230557966 := by
    nlinarith [sq_nonneg (n - 1)]
  have bound : 10000 * -2144844816 < quarticParts n := by
    unfold quarticParts
    linarith [mul_nonneg between factor]
  exact_mod_cast (lt_fittedQuartic_iff (-2144844816) n).mpr bound

/-- Up to 255 either way there is room for two. -/
theorem lt_fittedQuartic_near {n : ℤ} (low : -255 ≤ n) (high : n ≤ 255) :
    -1061988829 < fittedQuartic n := by
  have between : 0 ≤ (n + 255) * (255 - n) := mul_nonneg (by omega) (by omega)
  have factor : 0 ≤ 2492 * n ^ 2 - 9905 * n + 160794300 := by
    nlinarith [sq_nonneg (n - 2)]
  have bound : 10000 * -1061988829 < quarticParts n := by
    unfold quarticParts
    linarith [mul_nonneg between factor]
  exact_mod_cast (lt_fittedQuartic_iff (-1061988829) n).mpr bound

/-- **Where the quartic fits `int`.** -/
theorem fits_fittedQuartic_iff (n : ℤ) :
    FitsSigned 32 (trunc (fittedQuartic n)) ↔ -304 ≤ n ∧ n ≤ 306 := by
  rw [fits_trunc_iff]
  constructor
  · rintro ⟨above, -⟩
    constructor
    · by_contra far
      exact absurd (fittedQuartic_far (Or.inr (by omega))) (not_le.mpr above)
    · by_contra far
      exact absurd (fittedQuartic_far (Or.inl (by omega))) (not_le.mpr above)
  · rintro ⟨low, high⟩
    have above := lt_fittedQuartic low high
    have below := fittedQuartic_lt n
    exact ⟨by linarith, by linarith⟩

/-! ## Whole sequences -/

/-- The derivative term works on the error of the call before. -/
theorem error1_streeAt (exact_ : fm.IsExact) {calls : ℕ → StreeCall}
    (fits : ∀ k, FitsSigned 32 (trunc (fittedQuartic (calls k).nowValue))) (k : ℕ) :
    (streeAt fm calls k).error1 = lastError fittedQuartic calls k := by
  cases k with
  | zero =>
      exact Int.cast_zero.symm
  | succ k =>
      have kept : (streeAt fm calls (k + 1)).error1 = fm.rnd (streeFit fm (calls k).nowValue) := rfl
      rw [kept, exact_.rnd_eq, streeFit_of_fits exact_ (fits k), lastError]

/-- A gain `Set_UI` can produce. -/
def SteerGains (streepid : PID) : Prop :=
  (0 ≤ streepid.p ∧ streepid.p ≤ 999 / 10) ∧ 0 ≤ streepid.d ∧ streepid.d ≤ 999 / 10

/-- What the inputs and gains up to the `k`-th call have to be: the difference is in the
range of the quartic, and the proportional gain stays below what the derivative one leaves
it. -/
structure StreeModerate (calls : ℕ → StreeCall) (k : ℕ) : Prop where
  near : -304 ≤ (calls k).nowValue ∧ (calls k).nowValue ≤ 306
  turn : -2147488249 < (calls k).streepid.p / 100 * trunc (fittedQuartic (calls k).nowValue) +
    trunc ((calls k).streepid.d / 100 *
      (trunc (fittedQuartic (calls k).nowValue) - lastError fittedQuartic calls k))

/-- The quartic of the difference before the `k`-th, in ten thousandths; 0 before the
first. -/
def lastParts (n : ℕ → ℤ) : ℕ → ℤ
  | 0 => 0
  | k + 1 => quarticParts (n k)

/-- An error of a call in the range of the quartic, or of none. -/
def SmallError (x : ℤ) : Prop := -2144844816 < (x : ℚ) ∧ (x : ℚ) < 1000000

theorem smallError_trunc {n : ℤ} (low : -304 ≤ n) (high : n ≤ 306) :
    SmallError (trunc (fittedQuartic n)) := by
  have above := (lt_trunc_iff (n := -2144844816) (by decide) (fittedQuartic n)).mpr
    (by exact_mod_cast lt_fittedQuartic low high)
  have below := (trunc_lt_iff (n := 1000000) (by decide) (fittedQuartic n)).mpr
    (by exact_mod_cast fittedQuartic_lt n)
  exact ⟨by exact_mod_cast above, by exact_mod_cast below⟩

theorem smallError_lastError {calls : ℕ → StreeCall}
    (near : ∀ k, -304 ≤ (calls k).nowValue ∧ (calls k).nowValue ≤ 306) (k : ℕ) :
    SmallError (lastError fittedQuartic calls k) := by
  cases k with
  | zero => exact ⟨by norm_num [lastError], by norm_num [lastError]⟩
  | succ k => exact smallError_trunc (near k).1 (near k).2

/-- A gain of the menu weighs an error by 0.999 at most. -/
theorem le_weighted {g e low : ℚ} (gain : 0 ≤ g ∧ g ≤ 999 / 10) (neg : low ≤ 0) (le : low ≤ e) :
    999 / 1000 * low ≤ g / 100 * e := by
  have weight : 0 ≤ g / 100 := div_nonneg gain.1 (by norm_num)
  have weight' : g / 100 ≤ 999 / 1000 := by linarith [gain.2]
  calc 999 / 1000 * low ≤ g / 100 * low := mul_le_mul_of_nonpos_right weight' neg
    _ ≤ g / 100 * e := mul_le_mul_of_nonneg_left le weight

theorem weighted_le {g e high : ℚ} (gain : 0 ≤ g ∧ g ≤ 999 / 10) (pos : 0 ≤ high)
    (le : e ≤ high) : g / 100 * e ≤ 999 / 1000 * high := by
  have mirrored := le_weighted gain (neg_nonpos.mpr pos) (neg_le_neg le)
  linarith

/-- With the gains of the menu neither product leaves `int`, and together they do so only
below. -/
theorem turn_fits {streepid : PID} (gains : SteerGains streepid) {x last : ℤ} (hx : SmallError x)
    (hlast : SmallError last) :
    FitsSigned 32 (trunc (streepid.p / 100 * x)) ∧
      FitsSigned 32 (trunc (streepid.d / 100 * (x - last))) ∧
      median + streeTurn streepid x last < 2147483648 := by
  obtain ⟨x0, x1⟩ := hx
  obtain ⟨last0, last1⟩ := hlast
  have differenceLow : (-2145844816 : ℚ) ≤ x - last := by linarith
  have differenceHigh : (x - last : ℚ) ≤ 2145844816 := by linarith
  have pLow := le_weighted gains.1 (by norm_num) x0.le
  have pHigh := weighted_le gains.1 (by norm_num) x1.le
  have dLow := le_weighted gains.2 (by norm_num) differenceLow
  have dHigh := weighted_le gains.2 (by norm_num) differenceHigh
  refine ⟨(fits_trunc_iff _).mpr ⟨by linarith, by linarith⟩,
    (fits_trunc_iff _).mpr ⟨by linarith, by linarith⟩, ?_⟩
  have p : trunc (streepid.p / 100 * x) < 1000001 :=
    (trunc_lt_iff (by decide) _).mpr (by push_cast; linarith)
  have d : trunc (streepid.d / 100 * (x - last)) < 2143699973 :=
    (trunc_lt_iff (by decide) _).mpr (by push_cast; linarith)
  unfold streeTurn median
  omega

/-- The sum leaves `int` below exactly when the proportional product does not stay above what
the derivative term leaves it. -/
theorem le_sum_iff {streepid : PID} (gains : SteerGains streepid) {x last : ℤ}
    (hx : SmallError x) (hlast : SmallError last) :
    -2147483648 ≤ median + streeTurn streepid x last ↔
      -2147488249 < streepid.p / 100 * x + trunc (streepid.d / 100 * (x - last)) := by
  obtain ⟨-, ⟨low, -⟩, -⟩ := turn_fits gains hx hlast
  unfold streeTurn median
  generalize trunc (streepid.d / 100 * (x - last)) = k at low
  have below : -2147488249 - k < 0 := by
    norm_num at low
    omega
  have solved := lt_trunc_iff below (streepid.p / 100 * x)
  push_cast at solved
  rw [← sub_lt_iff_lt_add, ← solved]
  omega

/-- One call of a sequence that has kept to the range of the quartic. -/
theorem inRange_of_sum (exact_ : fm.IsExact) {calls : ℕ → StreeCall}
    (gains : ∀ k, SteerGains (calls k).streepid)
    (near : ∀ k, -304 ≤ (calls k).nowValue ∧ (calls k).nowValue ≤ 306) {k : ℕ}
    (low : -2147483648 ≤ median + streeTurn (calls k).streepid
      (trunc (fittedQuartic (calls k).nowValue)) (lastError fittedQuartic calls k)) :
    StreeInRange fm (calls k) (streeAt fm calls k) := by
  have fits := fun k => (fits_fittedQuartic_iff (calls k).nowValue).mpr (near k)
  obtain ⟨kpvalue, kdvalue, high⟩ := turn_fits (gains k) (smallError_trunc (near k).1 (near k).2)
    (smallError_lastError near k)
  refine ⟨fits k, ?_, ?_, ?_⟩
  · rwa [streeFit_of_fits exact_ (fits k)]
  · rwa [streeFit_of_fits exact_ (fits k), error1_streeAt exact_ fits]
  · rw [streeFit_of_fits exact_ (fits k), error1_streeAt exact_ fits, add_assoc]
    exact ⟨low, high⟩

/-- The other way round: a sequence that stays in range keeps to that of the quartic, and no
sum leaves `int` below. -/
theorem sum_of_inRange (exact_ : fm.IsExact) {calls : ℕ → StreeCall}
    (range : ∀ k, StreeInRange fm (calls k) (streeAt fm calls k)) (k : ℕ) :
    (-304 ≤ (calls k).nowValue ∧ (calls k).nowValue ≤ 306) ∧
      -2147483648 ≤ median + streeTurn (calls k).streepid
        (trunc (fittedQuartic (calls k).nowValue)) (lastError fittedQuartic calls k) := by
  have fits := fun k => (range k).x
  obtain ⟨low, -⟩ := (range k).sum
  refine ⟨(fits_fittedQuartic_iff _).mp (fits k), ?_⟩
  rw [streeFit_of_fits exact_ (fits k), error1_streeAt exact_ fits, add_assoc] at low
  exact low

/-- In range, call by call. -/
theorem inRange_iff_moderate (exact_ : fm.IsExact) {calls : ℕ → StreeCall}
    (gains : ∀ k, SteerGains (calls k).streepid) :
    (∀ k, StreeInRange fm (calls k) (streeAt fm calls k)) ↔ ∀ k, StreeModerate calls k := by
  constructor
  · intro range k
    have near := fun k => (sum_of_inRange exact_ range k).1
    exact ⟨near k, (le_sum_iff (gains k) (smallError_trunc (near k).1 (near k).2)
      (smallError_lastError near k)).mp (sum_of_inRange exact_ range k).2⟩
  · intro moderate k
    have near := fun k => (moderate k).near
    exact inRange_of_sum exact_ gains near ((le_sum_iff (gains k)
      (smallError_trunc (near k).1 (near k).2) (smallError_lastError near k)).mpr
        (moderate k).turn)

/-! ### Over all gains -/

/-- Of all gains the largest pull furthest down, if they pull down at all. -/
theorem le_streeTurn {streepid : PID} (gains : SteerGains streepid) (x last : ℤ) :
    trunc (999 / 1000 * min (x : ℚ) 0) + trunc (999 / 1000 * min ((x : ℚ) - last) 0) ≤
      streeTurn streepid x last :=
  add_le_add
    (trunc_mono (le_weighted gains.1 (min_le_right _ _) (min_le_left _ _)))
    (trunc_mono (le_weighted gains.2 (min_le_right _ _) (min_le_left _ _)))

/-- A weighted error that pulls down is truncated upwards. -/
theorem le_trunc_weighted (e : ℚ) : 999 / 1000 * min e 0 ≤ trunc (999 / 1000 * min e 0) :=
  (trunc_bounds_of_nonpos (mul_nonpos_of_nonneg_of_nonpos (by norm_num) (min_le_right _ _))).1

/-- With `q` and `last` the quartics of two consecutive differences: where their combination
stays up, so does the sum, whatever the gains. -/
theorem le_sum_of_parts {streepid : PID} (gains : SteerGains streepid) {q last : ℚ}
    (small : SmallError (trunc q)) (small' : SmallError (trunc last))
    (relation : -2149637800 ≤ 2 * q - last) :
    -2147483648 ≤ median + streeTurn streepid (trunc q) (trunc last) := by
  have turn := le_streeTurn gains (trunc q) (trunc last)
  have p := le_trunc_weighted (trunc q)
  have d := le_trunc_weighted ((trunc q : ℚ) - trunc last)
  have lastNear := (trunc_near last).2
  have sum : (-2147488248 : ℚ) ≤ trunc (999 / 1000 * min (trunc q : ℚ) 0) +
      trunc (999 / 1000 * min ((trunc q : ℚ) - trunc last) 0) := by
    rcases le_total 0 q with up | down
    · -- an error that pulls up outweighs the difference of two small ones
      have x : (0 : ℚ) ≤ trunc q := by exact_mod_cast trunc_nonneg up
      have difference : -1000000 ≤ min ((trunc q : ℚ) - trunc last) 0 :=
        le_min (by linarith [small'.2]) (by norm_num)
      rw [min_eq_right x] at p ⊢
      linarith
    · have x := (trunc_bounds_of_nonpos down).1
      rcases le_total 0 ((trunc q : ℚ) - trunc last) with rising | falling
      · have error : -2144844816 ≤ min (trunc q : ℚ) 0 := le_min small.1.le (by norm_num)
        rw [min_eq_right rising] at d ⊢
        linarith
      · have error : min (trunc q : ℚ) 0 = trunc q := by
          refine min_eq_left ?_
          exact_mod_cast neg_nonneg.mp ((trunc_neg q).symm ▸ trunc_nonneg (neg_nonneg.mpr down))
        rw [error] at p ⊢
        rw [min_eq_left falling] at d ⊢
        linarith
  unfold median
  have sum' : -2147488248 ≤ trunc (999 / 1000 * min (trunc q : ℚ) 0) +
      trunc (999 / 1000 * min ((trunc q : ℚ) - trunc last) 0) := by exact_mod_cast sum
  omega

/-- The largest gains of the menu. -/
def largestGains : PID := ⟨999 / 10, 0, 999 / 10⟩

theorem steerGains_largest : SteerGains largestGains :=
  ⟨⟨by norm_num [largestGains], le_rfl⟩, by norm_num [largestGains], le_rfl⟩

/-- With the largest gains the sum does not stay up where the combination goes a little
further down. -/
theorem parts_of_le_sum {q last : ℚ}
    (sum : -2147483648 ≤ median + streeTurn largestGains (trunc q) (trunc last)) :
    -2149637900 < 2 * q - last := by
  have p := (trunc_near (999 / 10 / 100 * (trunc q : ℚ))).2
  have d := (trunc_near (999 / 10 / 100 * ((trunc q : ℚ) - trunc last))).2
  have now := (trunc_near q).2
  have before := (trunc_near last).1
  have sum' : (-2147488248 : ℚ) ≤ trunc (999 / 10 / 100 * (trunc q : ℚ)) +
      trunc (999 / 10 / 100 * ((trunc q : ℚ) - trunc last)) := by
    unfold streeTurn median at sum
    dsimp only [largestGains] at sum
    have whole : -2147488248 ≤ trunc (999 / 10 / 100 * (trunc q : ℚ)) +
      trunc (999 / 10 / 100 * ((trunc q : ℚ) - trunc last)) := by omega
    exact_mod_cast whole
  linarith

/-! The quartic at `a - 304` is the difference of two polynomials with no minus sign. -/

def risingParts (a : ℕ) : ℕ := (3040177 * a * a + 282032974592) * a

def fallingParts (a : ℕ) : ℕ := (2492 * a * a + 1389589392) * a * a + 21446407808572

theorem quarticParts_sub (a : ℕ) :
    quarticParts (a - 304) = risingParts a - fallingParts a := by
  unfold quarticParts risingParts fallingParts
  push_cast
  ring

/-- The combination of two differences of naturals is on one side of the gap. -/
def clearOf (rising falling rising' falling' : ℕ) : Bool :=
  Nat.ble (2 * falling + rising') (2 * rising + falling' + 21496378000000) ||
    Nat.ble (2 * rising + falling' + 21496379000000) (2 * falling + rising')

theorem clear_first : ((List.range 611).all fun a =>
    clearOf (risingParts a) (fallingParts a) 0 0) = true := by decide +kernel

/-- Only where the first quartic takes up half of the bound do the others have to be
tried. -/
theorem clear_pairs : ((List.range 611).all fun a =>
    Nat.ble (2 * fallingParts a) (2 * risingParts a + 21480000000000) ||
      (List.range 611).all fun b =>
        clearOf (risingParts a) (fallingParts a) (risingParts b) (fallingParts b)) = true := by
  decide +kernel

theorem of_clearOf {rising falling rising' falling' : ℕ}
    (clear : clearOf rising falling rising' falling' = true) :
    -21496378000000 ≤ 2 * ((rising : ℤ) - falling) - ((rising' : ℤ) - falling') ∨
      2 * ((rising : ℤ) - falling) - ((rising' : ℤ) - falling') ≤ -21496379000000 := by
  rcases Bool.or_eq_true_iff.mp clear with above | below
  · have above' := Nat.le_of_ble_eq_true above
    omega
  · have below' := Nat.le_of_ble_eq_true below
    omega

/-- **No pair of differences comes near the bound**, nor does a first difference. -/
theorem parts_gap {n : ℕ → ℤ} (near : ∀ k, -304 ≤ n k ∧ n k ≤ 306) (k : ℕ) :
    -21496378000000 ≤ 2 * quarticParts (n k) - lastParts n k ∨
      2 * quarticParts (n k) - lastParts n k ≤ -21496379000000 := by
  have counted : ∀ k, ∃ a < 611, n k = (a : ℕ) - 304 := fun k =>
    ⟨(n k + 304).toNat, by have := near k; omega, by have := near k; omega⟩
  obtain ⟨a, low, now⟩ := counted k
  cases k with
  | zero =>
      have clear := List.all_eq_true.mp clear_first a (List.mem_range.mpr low)
      have gap := of_clearOf clear
      rw [now, quarticParts_sub, lastParts]
      push_cast at gap
      omega
  | succ k =>
      obtain ⟨b, low', before⟩ := counted k
      rw [now, quarticParts_sub, lastParts, before, quarticParts_sub]
      rcases Bool.or_eq_true_iff.mp
        (List.all_eq_true.mp clear_pairs a (List.mem_range.mpr low)) with half | clear
      · have half' := Nat.le_of_ble_eq_true half
        have peak : (risingParts b : ℤ) - fallingParts b < 10000000000 := by
          rw [← quarticParts_sub]
          exact_mod_cast (fittedQuartic_lt_iff 1000000 _).mp (fittedQuartic_lt _)
        exact Or.inl (by omega)
      · exact of_clearOf (List.all_eq_true.mp clear b (List.mem_range.mpr low'))

theorem lastError_streeCalls (g : ℕ → PID) (n : ℕ → ℤ) (k : ℕ) :
    lastError fittedQuartic (streeCalls g n) k = trunc (lastParts n k / 10000) := by
  cases k with
  | zero =>
      have zero : trunc 0 = 0 := rfl
      rw [lastError, lastParts, Int.cast_zero, zero_div, zero]
  | succ k => rw [lastError, lastParts, ← fittedQuartic_eq, streeCalls]

/-- **In range under all gains of the menu**: what the inputs have to be. -/
theorem inputs_iff (exact_ : fm.IsExact) (n : ℕ → ℤ) :
    (∀ g : ℕ → PID, (∀ k, SteerGains (g k)) →
        ∀ k, StreeInRange fm (streeCalls g n k) (streeAt fm (streeCalls g n) k)) ↔
      ∀ k, (-304 ≤ n k ∧ n k ≤ 306) ∧
        -21496378000000 ≤ 2 * quarticParts (n k) - lastParts n k := by
  constructor
  · intro range k
    have all := sum_of_inRange exact_ (range (fun _ => largestGains) fun _ => steerGains_largest)
    have near : ∀ k, -304 ≤ n k ∧ n k ≤ 306 := fun k => (all k).1
    refine ⟨near k, (parts_gap near k).resolve_right fun far => ?_⟩
    have sum := (all k).2
    rw [lastError_streeCalls, fittedQuartic_eq] at sum
    have parts := parts_of_le_sum sum
    have far' : (2 * quarticParts (n k) - lastParts n k : ℚ) ≤ -21496379000000 := by
      exact_mod_cast far
    have same : (streeCalls (fun _ => largestGains) n k).nowValue = n k := rfl
    rw [same] at parts
    linarith
  · intro inputs g gains k
    have near : ∀ k, -304 ≤ n k ∧ n k ≤ 306 := fun k => (inputs k).1
    refine inRange_of_sum exact_ gains near ?_
    have last : SmallError (lastError fittedQuartic (streeCalls g n) k) :=
      smallError_lastError near k
    rw [lastError_streeCalls] at last ⊢
    refine le_sum_of_parts (gains k) (smallError_trunc (near k).1 (near k).2) last ?_
    have relation : (-21496378000000 : ℚ) ≤ 2 * quarticParts (n k) - lastParts n k := by
      exact_mod_cast (inputs k).2
    have same : (streeCalls g n k).nowValue = n k := rfl
    rw [same, fittedQuartic_eq]
    linarith

/-! ### Over all inputs -/

/-- The greatest error, reached at 17. -/
theorem trunc_fittedQuartic_le (n : ℤ) : trunc (fittedQuartic n) ≤ 20079 := by
  have below : quarticParts n < 10000 * 20080 := by
    rcases lt_or_ge n (-24) with left | low
    · have beyond : 0 ≤ (-21 - n) * (-20 - n) := mul_nonneg (by omega) (by omega)
      unfold quarticParts
      nlinarith [sq_nonneg n]
    · rcases lt_or_ge 24 n with right | high
      · have beyond : 0 ≤ (n - 25) * (n - 21) := mul_nonneg (by omega) (by omega)
        unfold quarticParts
        nlinarith [sq_nonneg n]
      · obtain ⟨a, rfl⟩ : ∃ a : ℕ, n = a - 24 := ⟨(n + 24).toNat, by omega⟩
        exact (by decide : ∀ a < 49, quarticParts ((a : ℕ) - 24 : ℤ) < 10000 * 20080) a (by omega)
  have less := (trunc_lt_iff (n := 20080) (by decide) _).mpr
    ((fittedQuartic_lt_iff 20080 n).mpr below)
  omega

/-- The least error in the range, reached at 306. -/
theorem le_trunc_fittedQuartic {n : ℤ} (low : -304 ≤ n) (high : n ≤ 306) :
    -2144844815 ≤ trunc (fittedQuartic n) := by
  have above := (lt_trunc_iff (n := -2144844816) (by decide) (fittedQuartic n)).mpr
    (by exact_mod_cast lt_fittedQuartic low high)
  omega

/-- The turn a difference of 306 asks for behind one of 17. -/
theorem streeTurn_extremes (streepid : PID) :
    streeTurn streepid (-2144844815) 20079 =
      -(trunc (streepid.p / 100 * 2144844815) + trunc (streepid.d / 100 * 2144864894)) := by
  have p : streepid.p / 100 * (-2144844815 : ℤ) = -(streepid.p / 100 * 2144844815) := by
    push_cast
    ring
  have d : streepid.d / 100 * ((-2144844815 : ℤ) - (20079 : ℤ) : ℚ) =
      -(streepid.d / 100 * 2144864894) := by
    push_cast
    ring
  rw [streeTurn, p, d, trunc_neg, trunc_neg]
  ring

/-- Of all errors of the range those two pull furthest down. -/
theorem streeTurn_extremes_le {streepid : PID} (gains : SteerGains streepid) {x last : ℤ}
    (low : -2144844815 ≤ x) (high : last ≤ 20079) :
    streeTurn streepid (-2144844815) 20079 ≤ streeTurn streepid x last := by
  have x' : ((-2144844815 : ℤ) : ℚ) ≤ x := by exact_mod_cast low
  have last' : (last : ℚ) ≤ (20079 : ℤ) := by exact_mod_cast high
  exact add_le_add
    (trunc_mono (mul_le_mul_of_nonneg_left x' (div_nonneg gains.1.1 (by norm_num))))
    (trunc_mono (mul_le_mul_of_nonneg_left (by linarith) (div_nonneg gains.2.1 (by norm_num))))

/-- **In range under all inputs**: what the gains have to be. -/
theorem gains_iff (exact_ : fm.IsExact) {g : PID} (gains : SteerGains g) :
    (∀ n : ℕ → ℤ, (∀ k, -304 ≤ n k ∧ n k ≤ 306) → ∀ k,
        StreeInRange fm (streeCalls (fun _ => g) n k) (streeAt fm (streeCalls (fun _ => g) n) k)) ↔
      trunc (g.p / 100 * 2144844815) + trunc (g.d / 100 * 2144864894) ≤ 2147488248 := by
  have solved : trunc (g.p / 100 * 2144844815) + trunc (g.d / 100 * 2144864894) ≤ 2147488248 ↔
      -2147483648 ≤ median + streeTurn g (-2144844815) 20079 := by
    rw [streeTurn_extremes, median]
    omega
  rw [solved]
  constructor
  · intro range
    let n : ℕ → ℤ := fun k => if k = 0 then 17 else 306
    have near : ∀ k, -304 ≤ n k ∧ n k ≤ 306 := by
      intro k
      by_cases first : k = 0
      · simp [n, first]
      · simp [n, first]
    have sum := (sum_of_inRange exact_ (range n near) 1).2
    have x : trunc (fittedQuartic 306) = -2144844815 := by decide +kernel
    have last : trunc (fittedQuartic 17) = 20079 := by decide +kernel
    change -2147483648 ≤ median + streeTurn g (trunc (fittedQuartic 306)) (trunc (fittedQuartic 17))
      at sum
    rwa [x, last] at sum
  · intro low n near k
    refine inRange_of_sum exact_ (fun _ => gains) near (low.trans (add_le_add_right ?_ _))
    refine streeTurn_extremes_le gains (le_trunc_fittedQuartic (near k).1 (near k).2) ?_
    cases k with
    | zero => exact show (0 : ℤ) ≤ 20079 by decide
    | succ k => exact trunc_fittedQuartic_le _

/-- Differences of 255 at most are safe with every gain of the menu. -/
theorem inRange_of_small (exact_ : fm.IsExact) {calls : ℕ → StreeCall}
    (gains : ∀ k, SteerGains (calls k).streepid) (small : ∀ k, |(calls k).nowValue| ≤ 255) (k : ℕ) :
    StreeInRange fm (calls k) (streeAt fm calls k) := by
  have bounds := fun k => abs_le.mp (small k)
  have split : calls = streeCalls (fun k => (calls k).streepid) fun k => (calls k).nowValue := rfl
  rw [split]
  refine (inputs_iff exact_ fun k => (calls k).nowValue).mpr (fun k => ?_) _ gains k
  have now : 10000 * -1061988829 < quarticParts (calls k).nowValue := by
    exact_mod_cast (lt_fittedQuartic_iff (-1061988829) _).mp
      (by exact_mod_cast lt_fittedQuartic_near (bounds k).1 (bounds k).2)
  have before : lastParts (fun k => (calls k).nowValue) k < 10000 * 1000000 := by
    cases k with
    | zero => exact show (0 : ℤ) < 10000 * 1000000 by decide
    | succ k => exact_mod_cast (fittedQuartic_lt_iff 1000000 _).mp (fittedQuartic_lt _)
  have bound := bounds k
  exact ⟨by omega, by omega⟩

/-- **When `streePID` stays in range**, in exact rationals, with gains from 0 to 99.9.

A sequence of inputs stays in range under all gains exactly if every input is from -304 to
306 and, in ten thousandths, twice its quartic less that of the input before is at least
-21496378000000.  Gains stay in range under all sequences of such inputs exactly if
`⌊p*21448448.15⌋ + ⌊d*21448648.94⌋` is at most 2^31+4600.  A sequence of inputs and gains
stays in range exactly if every input is from -304 to 306 and every proportional gain below
what the derivative term leaves it.  Inputs of at most 255 are always safe. -/
theorem streePID_inRange_iff (exact_ : fm.IsExact) :
    (∀ n : ℕ → ℤ,
      (∀ g : ℕ → PID, (∀ k, SteerGains (g k)) →
        ∀ k, StreeInRange fm (streeCalls g n k) (streeAt fm (streeCalls g n) k)) ↔
      ∀ k, (-304 ≤ n k ∧ n k ≤ 306) ∧
        -21496378000000 ≤ 2 * quarticParts (n k) - lastParts n k) ∧
    (∀ g, SteerGains g →
      ((∀ n : ℕ → ℤ, (∀ k, -304 ≤ n k ∧ n k ≤ 306) → ∀ k,
        StreeInRange fm (streeCalls (fun _ => g) n k) (streeAt fm (streeCalls (fun _ => g) n) k)) ↔
      trunc (g.p / 100 * 2144844815) + trunc (g.d / 100 * 2144864894) ≤ 2147488248)) ∧
    ∀ calls : ℕ → StreeCall, (∀ k, SteerGains (calls k).streepid) →
      ((∀ k, StreeInRange fm (calls k) (streeAt fm calls k)) ↔ ∀ k, StreeModerate calls k) ∧
      ((∀ k, |(calls k).nowValue| ≤ 255) →
        ∀ k, StreeInRange fm (calls k) (streeAt fm calls k)) :=
  ⟨inputs_iff exact_, fun _ gains => gains_iff exact_ gains, fun _ gains =>
    ⟨inRange_iff_moderate exact_ gains, inRange_of_small exact_ gains⟩⟩

/-- The largest gains at a standing difference of 255, in the second call; and half of them,
whatever the inputs of the range. -/
theorem streePID_inRange_standing :
    StreeInRange .exact ⟨largestGains, 255⟩ (streeAt .exact (fun _ => ⟨largestGains, 255⟩) 1) ∧
      ∀ n : ℕ → ℤ, (∀ k, -304 ≤ n k ∧ n k ≤ 306) → ∀ k,
        StreeInRange .exact (streeCalls (fun _ => ⟨50, 0, 50⟩) n k)
          (streeAt .exact (streeCalls (fun _ => ⟨50, 0, 50⟩) n) k) := by
  obtain ⟨-, gains, calls⟩ := streePID_inRange_iff isExact_exact
  have half : SteerGains ⟨50, 0, 50⟩ := ⟨⟨by norm_num, by norm_num⟩, by norm_num, by norm_num⟩
  exact ⟨(calls (fun _ => ⟨largestGains, 255⟩) fun _ => steerGains_largest).2
    (fun _ => show |(255 : ℤ)| ≤ 255 by decide) 1, (gains _ half).mpr (by decide +kernel)⟩

/-- One coil at full scale and the other at zero. -/
theorem not_streePID_inRange : ¬ ∀ calls : ℕ → StreeCall,
    (∀ k, SteerGains (calls k).streepid ∧ |(calls k).nowValue| ≤ 4095) →
      ∀ k, StreeInRange .exact (calls k) (streeAt .exact calls k) := by
  intro always
  have gains : SteerGains ⟨0, 0, 0⟩ := ⟨⟨le_rfl, by norm_num⟩, le_rfl, by norm_num⟩
  have fits := (always (fun _ => ⟨⟨0, 0, 0⟩, 4095⟩) (fun _ => ⟨gains, le_rfl⟩) 0).x
  exact absurd fits (by decide +kernel)

/-! ## Against the cubic -/

/-- What the `k`-th call leaves in `resultturn`, in range. -/
theorem resultturn_streeAt (exact_ : fm.IsExact) {calls : ℕ → StreeCall}
    (range : ∀ k, StreeInRange fm (calls k) (streeAt fm calls k)) (k : ℕ) :
    (streeAt fm calls (k + 1)).resultturn =
      median + streeTurn (calls k).streepid (trunc (fittedQuartic (calls k).nowValue))
        (lastError fittedQuartic calls k) :=
  streePID_of_inRange exact_ (range k) (error1_streeAt exact_ (fun k => (range k).x) k)

/-- What the two fits have in common, in ten thousandths. -/
def fitFactor (n : ℤ) : ℤ := -2492 * n ^ 2 + 9905 * n + 1248000

theorem quarticParts_eq (n : ℤ) : quarticParts n = n ^ 2 * fitFactor n - 407100 := by
  rw [quarticParts, fitFactor]
  ring

theorem cubicParts_eq (n : ℤ) : cubicParts n = n * fitFactor n - 407100 := by
  rw [cubicParts, fitFactor]
  ring

/-- The common factor is positive from -20 to 24 and negative elsewhere, and far from zero at
every integer. -/
theorem fitFactor_far (n : ℤ) : 10000 ≤ fitFactor n ∨ fitFactor n ≤ -10000 := by
  unfold fitFactor
  rcases lt_or_ge n (-20) with left | low
  · have beyond : 0 ≤ (-21 - n) * (-20 - n) := mul_nonneg (by omega) (by omega)
    exact Or.inr (by linarith)
  · rcases lt_or_ge 24 n with right | high
    · have beyond : 0 ≤ (n - 25) * (n - 21) := mul_nonneg (by omega) (by omega)
      exact Or.inr (by linarith)
    · have between : 0 ≤ (n + 20) * (24 - n) := mul_nonneg (by omega) (by omega)
      exact Or.inl (by linarith)

/-- At every difference other than 0 and 1 the fits are two units apart or more. -/
theorem parts_apart {n : ℤ} (zero : n ≠ 0) (one : n ≠ 1) :
    20000 ≤ quarticParts n - cubicParts n ∨ quarticParts n - cubicParts n ≤ -20000 := by
  have apart : quarticParts n - cubicParts n = n * (n - 1) * fitFactor n := by
    rw [quarticParts_eq, cubicParts_eq]
    ring
  have two : 2 ≤ n * (n - 1) := by
    rcases lt_or_ge n 0 with left | right
    · nlinarith
    · have right' : 2 ≤ n := by omega
      nlinarith
  rw [apart]
  rcases fitFactor_far n with above | below
  · exact Or.inl (by nlinarith)
  · exact Or.inr (by nlinarith)

/-- The two fits agree, truncated, at two differences only. -/
theorem fitted_agree (n : ℤ) :
    trunc (fittedQuartic n) = trunc (fittedCubic n) ↔ n = 0 ∨ n = 1 := by
  rw [fittedQuartic_eq, fittedCubic_eq]
  constructor
  · intro same
    by_contra other
    obtain ⟨zero, one⟩ := not_or.mp other
    obtain ⟨low, high⟩ := trunc_near (quarticParts n / 10000)
    obtain ⟨low', high'⟩ := trunc_near (cubicParts n / 10000)
    rw [same] at low high
    have above : (quarticParts n - cubicParts n : ℚ) < 20000 := by linarith
    have below : (-20000 : ℚ) < quarticParts n - cubicParts n := by linarith
    norm_cast at above below
    rcases parts_apart zero one with far | far
    · omega
    · omega
  · rintro (rfl | rfl)
    · rfl
    · rfl

/-- Of two sequences of fits that agree so do the errors before each call. -/
theorem lastError_congr {fit fit' : ℤ → ℚ} {calls : ℕ → StreeCall}
    (agree : ∀ k, trunc (fit (calls k).nowValue) = trunc (fit' (calls k).nowValue)) (k : ℕ) :
    lastError fit calls k = lastError fit' calls k := by
  cases k with
  | zero => rfl
  | succ k => exact agree k

/-- With a proportional gain of 100 the turn is the error, and small differences are in
range. -/
theorem inRange_hundred (exact_ : fm.IsExact) {n : ℕ → ℤ} (small : ∀ k, |n k| ≤ 300) (k : ℕ) :
    StreeInRange fm (streeCalls (fun _ => ⟨100, 0, 0⟩) n k)
      (streeAt fm (streeCalls (fun _ => ⟨100, 0, 0⟩) n) k) := by
  obtain ⟨low, high⟩ := abs_le.mp (small k)
  have fits := (fits_fittedQuartic_iff (n k)).mpr ⟨by omega, by omega⟩
  obtain ⟨above, below⟩ := smallError_trunc (n := n k) (by omega) (by omega)
  norm_cast at above below
  have none_ : ∀ e : ℚ, trunc (0 / 100 * e) = 0 := by
    intro e
    rw [zero_div, zero_mul]
    rfl
  have x : (100 : ℚ) / 100 * streeFit fm (n k) = (trunc (fittedQuartic (n k)) : ℤ) := by
    rw [streeFit_of_fits exact_ fits]
    ring
  refine ⟨fits, ?_, ?_, ?_⟩
  · show FitsSigned 32 (trunc ((100 : ℚ) / 100 * streeFit fm (n k)))
    rwa [x, trunc_intCast]
  · show FitsSigned 32 (trunc (0 / 100 * _))
    rw [none_]
    decide
  · show FitsSigned 32 (median + trunc ((100 : ℚ) / 100 * streeFit fm (n k)) + trunc (0 / 100 * _))
    rw [x, trunc_intCast, none_]
    norm_num [FitsSigned, median]
    omega

/-- Small differences to both sides give a positive error. -/
theorem fitted_pos {n : ℤ} (small : |n| ≤ 12) (zero : n ≠ 0) : 0 < trunc (fittedQuartic n) := by
  obtain ⟨low, high⟩ := abs_le.mp small
  have square : 0 < n ^ 2 := by positivity
  have square' : n ^ 2 ≤ 144 := by nlinarith
  have factor : 500000 ≤ fitFactor n := by
    unfold fitFactor
    linarith
  have parts : 10000 ≤ quarticParts n := by
    rw [quarticParts_eq]
    nlinarith
  have value : (1 : ℚ) ≤ fittedQuartic n := by
    rw [fittedQuartic_eq, le_div_iff₀ (by norm_num), one_mul]
    exact_mod_cast parts
  have above := (trunc_near (fittedQuartic n)).1
  have pos : (0 : ℚ) < trunc (fittedQuartic n) := by linarith
  exact_mod_cast pos

/-- **When `streePID` applies the cubic.**  For every sequence of differences up to 300, in
exact rationals: every call with every gains, as long as nothing leaves `int`, commands
what the cubic asks for exactly if all differences are 0 or 1.  And no difference from 1 to
12 gives an error of another sign than its opposite: both are positive. -/
theorem streePID_cubic_iff (exact_ : fm.IsExact) {n : ℕ → ℤ} (small : ∀ k, |n k| ≤ 300) :
    ((∀ g : ℕ → PID, (∀ k, 0 ≤ (g k).p ∧ 0 ≤ (g k).d) →
        (∀ k, StreeInRange fm (streeCalls g n k) (streeAt fm (streeCalls g n) k)) →
          ∀ k, (streeAt fm (streeCalls g n) (k + 1)).resultturn =
            median + streeTurn (g k) (trunc (fittedCubic (n k)))
              (lastError fittedCubic (streeCalls g n) k)) ↔
        ∀ k, n k = 0 ∨ n k = 1) ∧
      ∀ m : ℤ, 1 ≤ m → m ≤ 12 → 0 < streeFit fm m ∧ 0 < streeFit fm (-m) := by
  refine ⟨⟨fun cubic k => ?_, fun few g _ range k => ?_⟩, fun m low high => ?_⟩
  · have range := inRange_hundred exact_ small
    have asked := cubic (fun _ => ⟨100, 0, 0⟩) (fun _ => ⟨by norm_num, le_rfl⟩) range k
    have found := resultturn_streeAt exact_ range k
    rw [asked, add_right_inj] at found
    have turn : ∀ x last : ℤ, streeTurn ⟨100, 0, 0⟩ x last = x := by
      intro x last
      rw [streeTurn, div_self (by norm_num), one_mul, trunc_intCast, zero_div, zero_mul,
        add_eq_left]
      rfl
    rw [turn] at found
    exact (fitted_agree (n k)).mp ((turn _ _).symm.trans found.symm)
  · have agree : ∀ k, trunc (fittedQuartic (n k)) = trunc (fittedCubic (n k)) :=
      fun k => (fitted_agree (n k)).mpr (few k)
    rw [resultturn_streeAt exact_ range k, lastError_congr agree k, ← agree k]
    rfl
  · have right := fitted_pos (abs_le.mpr ⟨by omega, high⟩) (show m ≠ 0 by omega)
    have left := fitted_pos (abs_le.mpr ⟨by omega, by omega⟩) (show -m ≠ 0 by omega)
    rw [streeFit_of_fits exact_ ((fits_fittedQuartic_iff m).mpr ⟨by omega, by omega⟩),
      streeFit_of_fits exact_ ((fits_fittedQuartic_iff (-m)).mpr ⟨by omega, by omega⟩)]
    exact ⟨right, left⟩

/-- A standing difference of 1, and the errors of 12 and -12. -/
theorem streePID_cubic_standing :
    (∀ g : ℕ → PID, (∀ k, 0 ≤ (g k).p ∧ 0 ≤ (g k).d) →
      (∀ k, StreeInRange .exact (streeCalls g (fun _ => 1) k)
        (streeAt .exact (streeCalls g fun _ => 1) k)) →
        (streeAt .exact (streeCalls g fun _ => 1) 1).resultturn =
          median + streeTurn (g 0) (trunc (fittedCubic 1)) 0) ∧
      0 < streeFit .exact 12 ∧ 0 < streeFit .exact (-12) := by
  obtain ⟨cubic, sides⟩ := streePID_cubic_iff isExact_exact (n := fun _ => 1) fun _ => by decide
  exact ⟨fun g nonneg range => cubic.mpr (fun _ => Or.inr rfl) g nonneg range 0,
    sides 12 (by decide) le_rfl⟩

/-- `Turn__P` at 50 and a difference of -1: the quartic asks for 41 to one side, the cubic
for 82 to the other. -/
theorem not_streePID_cubic : ¬ ∀ n : ℕ → ℤ, (∀ k, |n k| ≤ 300) → ∀ g : ℕ → PID,
    (∀ k, 0 ≤ (g k).p ∧ 0 ≤ (g k).d) →
      (∀ k, StreeInRange .exact (streeCalls g n k) (streeAt .exact (streeCalls g n) k)) →
        ∀ k, (streeAt .exact (streeCalls g n) (k + 1)).resultturn =
          median + streeTurn (g k) (trunc (fittedCubic (n k)))
            (lastError fittedCubic (streeCalls g n) k) := by
  intro always
  have gains : SteerGains ⟨50, 0, 0⟩ := ⟨⟨by norm_num, by norm_num⟩, le_rfl, by norm_num⟩
  have range (k : ℕ) : StreeInRange .exact (streeCalls (fun _ => ⟨50, 0, 0⟩) (fun _ => -1) k)
      (streeAt .exact (streeCalls (fun _ => ⟨50, 0, 0⟩) fun _ => -1) k) :=
    inRange_of_small isExact_exact (fun _ => gains) (fun _ => show |(-1 : ℤ)| ≤ 255 by decide) k
  have asked := always (fun _ => -1) (fun _ => by decide) (fun _ => ⟨50, 0, 0⟩)
    (fun _ => ⟨by norm_num, le_rfl⟩) range 0
  exact absurd asked (by decide +kernel)

end CannonCar
