import CannonCar.Foundation.Hull

/-!
# The scalar Kalman filter

`KalmanSimple1D` and `KalmanRun` of `imu/filter.c`, in exact arithmetic.

With `F = H = 1` the gain is `P0 / (P0 + R)`, so that a measurement moves the state part
of the way towards it, and what remains of the covariance is the gain times `R`
(`covariance_kalmanRun`).  A state that is `Ready` stays so, and all bounds are read off
that.

## What is load-bearing

`Ready` is what a state needs so that no step divides by zero and the gain lies between 0 and
1: a measurement noise that is positive, and a noise of its own and a covariance that are not
negative.  Every step keeps it, so the bounds on gain and covariance along a run are those of
a single step, and the state is in the hull of its start and the measurements by
`Hull.run_mem_hull`, since each step moves it part of the way towards the measurement.

`F` and `H` are fields of the state and are multiplied with as the source does; that they are 1
is part of `Ready`.  Arithmetic is exact.
-/

namespace CannonCar

open Trajectory Hull

/-! ## The source -/

/-- `KalmanState_t`. -/
structure KalmanState where
  X0 : ℚ
  P0 : ℚ
  F : ℚ
  Q : ℚ
  H : ℚ
  R : ℚ
  State : ℚ
  Covariance : ℚ
  deriving DecidableEq

namespace KalmanState

/-- `KalmanSimple1D`. -/
def kalmanSimple1D (S : KalmanState) (q r : ℚ) : KalmanState :=
  { S with Q := q, R := r, F := 1, H := 1 }

/-- The time update of `KalmanRun`. -/
def predict (S : KalmanState) : KalmanState :=
  { S with X0 := S.F * S.State, P0 := S.F * S.Covariance * S.F + S.Q }

/-- What `KalmanRun` divides by. -/
def divisor (S : KalmanState) : ℚ := S.H * S.P0 * S.H + S.R

/-- `K` of `KalmanRun`. -/
def gain (S : KalmanState) : ℚ := S.H * S.P0 / S.divisor

/-- The measurement update of `KalmanRun`. -/
def correct (S : KalmanState) (data : ℚ) : KalmanState :=
  { S with
    State := S.X0 + S.gain * (data - S.H * S.X0)
    Covariance := (1 - S.gain * S.H) * S.P0 }

/-- `KalmanRun`. -/
def kalmanRun (S : KalmanState) (data : ℚ) : KalmanState := S.predict.correct data

/-! ## One measurement -/

/-- A filter set up by `KalmanSimple1D`, with noises that make sense. -/
structure Ready (S : KalmanState) : Prop where
  F : S.F = 1
  H : S.H = 1
  Q : 0 ≤ S.Q
  R : 0 < S.R
  Covariance : 0 ≤ S.Covariance

@[simp] theorem kalmanRun_R (S : KalmanState) (data : ℚ) : (S.kalmanRun data).R = S.R := rfl

variable {S : KalmanState}

theorem ready_kalmanSimple1D (S : KalmanState) {q r : ℚ} (noise : 0 ≤ q) (positive : 0 < r)
    (covariance : 0 ≤ S.Covariance) : (S.kalmanSimple1D q r).Ready :=
  ⟨rfl, rfl, noise, positive, covariance⟩

theorem Ready.P0_eq (ready : S.Ready) : S.predict.P0 = S.Covariance + S.Q := by
  have update : S.predict.P0 = S.F * S.Covariance * S.F + S.Q := rfl
  rw [update, ready.F, one_mul, mul_one]

theorem Ready.P0_nonneg (ready : S.Ready) : 0 ≤ S.predict.P0 := by
  rw [ready.P0_eq]
  exact add_nonneg ready.Covariance ready.Q

theorem Ready.divisor_eq (ready : S.Ready) : S.predict.divisor = S.predict.P0 + S.R := by
  have unit : S.predict.H = 1 := ready.H
  rw [divisor, unit, one_mul, mul_one]
  rfl

theorem Ready.divisor_pos (ready : S.Ready) : 0 < S.predict.divisor := by
  rw [ready.divisor_eq]
  exact add_pos_of_nonneg_of_pos ready.P0_nonneg ready.R

theorem Ready.gain_eq (ready : S.Ready) :
    S.predict.gain = S.predict.P0 / (S.predict.P0 + S.R) := by
  have unit : S.predict.H = 1 := ready.H
  rw [gain, ready.divisor_eq, unit, one_mul]

theorem Ready.gain_nonneg (ready : S.Ready) : 0 ≤ S.predict.gain := by
  rw [ready.gain_eq, ← ready.divisor_eq]
  exact div_nonneg ready.P0_nonneg ready.divisor_pos.le

theorem Ready.gain_lt_one (ready : S.Ready) : S.predict.gain < 1 := by
  rw [ready.gain_eq, ← ready.divisor_eq, div_lt_one ready.divisor_pos, ready.divisor_eq]
  exact lt_add_of_pos_right _ ready.R

/-- The state moves part of the way towards the measurement. -/
theorem Ready.state_kalmanRun (ready : S.Ready) (data : ℚ) :
    (S.kalmanRun data).State = S.State + S.predict.gain * (data - S.State) := by
  have update : S.predict.X0 = S.F * S.State := rfl
  have prediction : S.predict.X0 = S.State := by rw [update, ready.F, one_mul]
  have unit : S.predict.H = 1 := ready.H
  rw [kalmanRun, correct, prediction, unit, one_mul]

/-- What remains of the covariance is a part of the noise of the measurement. -/
theorem Ready.covariance_kalmanRun (ready : S.Ready) (data : ℚ) :
    (S.kalmanRun data).Covariance = S.predict.gain * S.R := by
  have unit : S.predict.H = 1 := ready.H
  have nonzero : S.predict.P0 + S.R ≠ 0 := ready.divisor_eq ▸ ready.divisor_pos.ne'
  rw [kalmanRun, correct, unit, mul_one, ready.gain_eq]
  field_simp
  ring

theorem Ready.covariance_mem (ready : S.Ready) (data : ℚ) :
    (S.kalmanRun data).Covariance ∈ Set.Icc 0 S.R := by
  rw [ready.covariance_kalmanRun]
  exact ⟨mul_nonneg ready.gain_nonneg ready.R.le,
    mul_le_of_le_one_left ready.R.le ready.gain_lt_one.le⟩

theorem Ready.kalmanRun (ready : S.Ready) (data : ℚ) : (S.kalmanRun data).Ready :=
  ⟨ready.F, ready.H, ready.Q, ready.R, (ready.covariance_mem data).1⟩

/-! ## Runs -/

theorem R_run (S : KalmanState) (data : List ℚ) : (run KalmanState.kalmanRun S data).R = S.R := by
  induction data generalizing S with
  | nil => rfl
  | cons d data ih => rw [run_cons, ih, kalmanRun_R]

/-- What is to hold of one call: nothing is divided by zero, the gain is a proper part of
one, and the covariance is at most the noise of the measurement afterwards. -/
def Bounded (S : KalmanState) (data : ℚ) : Prop :=
  S.predict.divisor ≠ 0 ∧ 0 ≤ S.predict.gain ∧ S.predict.gain < 1 ∧
    (S.kalmanRun data).Covariance ∈ Set.Icc 0 S.R

/-- **The filter is a bounded convex estimator**: each call of a run is within its bounds,
and the state lies between the least and the greatest of the first state and the
measurements so far. -/
theorem kalmanRun_bounded (S : KalmanState) (q r : ℚ) (noise : 0 ≤ q) (positive : 0 < r)
    (covariance : 0 ≤ S.Covariance) (data : List ℚ) :
    Guarded Bounded kalmanRun (S.kalmanSimple1D q r) data ∧
    (run kalmanRun (S.kalmanSimple1D q r) data).R = r ∧
    (run kalmanRun (S.kalmanSimple1D q r) data).State ∈
      Set.Icc (data.foldl min S.State) (data.foldl max S.State) := by
  have ready := S.ready_kalmanSimple1D noise positive covariance
  refine ⟨guarded_of_forall (I := Ready) ?_ ready, ?_, ?_⟩
  · intro s d _ ready
    exact ⟨⟨ready.divisor_pos.ne', ready.gain_nonneg, ready.gain_lt_one, ready.covariance_mem d⟩,
      ready.kalmanRun d⟩
  · exact R_run _ data
  · exact run_mem_hull (I := Ready) State (fun s => s.predict.gain)
      (fun s d ready => ready.kalmanRun d)
      (fun s ready => ⟨ready.gain_nonneg, ready.gain_lt_one.le⟩)
      (fun s d ready => ready.state_kalmanRun d) ready data

theorem kalmanRun_bounded_of_three :
    Guarded Bounded kalmanRun (kalmanSimple1D ⟨0, 0, 0, 0, 0, 0, 5, 10⟩ 1 2) [7, 4, 6] ∧
    (run kalmanRun (kalmanSimple1D ⟨0, 0, 0, 0, 0, 0, 5, 10⟩ 1 2) [7, 4, 6]).R = 2 ∧
    (run kalmanRun (kalmanSimple1D ⟨0, 0, 0, 0, 0, 0, 5, 10⟩ 1 2) [7, 4, 6]).State ∈
      Set.Icc ([7, 4, 6].foldl min 5) ([7, 4, 6].foldl max 5) :=
  kalmanRun_bounded ⟨0, 0, 0, 0, 0, 0, 5, 10⟩ 1 2 (by norm_num) (by norm_num) (by norm_num)
    [7, 4, 6]

/-! ## The mean -/

/-- **Without noise of its own the state is a mean** of the measurements, each with the
weight of the covariance, and of the first state, with the weight of `R`. -/
theorem Ready.mean_of_Q_eq_zero (ready : S.Ready) (still : S.Q = 0) (data : List ℚ) :
    (S.R + data.length * S.Covariance) * (run KalmanState.kalmanRun S data).State =
        S.R * S.State + S.Covariance * data.sum ∧
      (S.R + data.length * S.Covariance) * (run KalmanState.kalmanRun S data).Covariance =
        S.R * S.Covariance := by
  induction data generalizing S with
  | nil => simp
  | cons d data ih =>
      have nonzero : S.Covariance + S.R ≠ 0 :=
        (add_pos_of_nonneg_of_pos ready.Covariance ready.R).ne'
      have prediction : S.predict.P0 = S.Covariance := by rw [ready.P0_eq, still, add_zero]
      have state := ready.state_kalmanRun d
      have covariance := ready.covariance_kalmanRun d
      rw [ready.gain_eq, prediction] at state covariance
      obtain ⟨mean, rest⟩ := ih (ready.kalmanRun d) still
      rw [state, covariance, kalmanRun_R] at mean
      rw [covariance, kalmanRun_R] at rest
      -- the rest of the run starts from `R * Covariance / (Covariance + R)`
      have scale : S.R * (S.R + (data.length + 1) * S.Covariance) =
          (S.Covariance + S.R) *
            (S.R + data.length * (S.Covariance / (S.Covariance + S.R) * S.R)) := by
        field_simp
        ring
      rw [run_cons, List.length_cons, List.sum_cons, Nat.cast_add, Nat.cast_one]
      constructor
      · apply mul_left_cancel₀ ready.R.ne'
        rw [← mul_assoc, scale, mul_assoc, mean]
        field_simp
        ring
      · apply mul_left_cancel₀ ready.R.ne'
        rw [← mul_assoc, scale, mul_assoc, rest]
        field_simp

end KalmanState

end CannonCar
