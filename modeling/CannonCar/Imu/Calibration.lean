import CannonCar.Foundation.MachineInt
import CannonCar.Foundation.Trajectory

/-!
# Gyro calibration

`dcal_input` is called with every sample.  It waits for a still sample, which it keeps
as the reference, adds up the gyro readings of the hundred still samples that follow,
and on the call after these publishes their mean in `gadj`.

The three sums, the counter and the reference readings are statics that different arcs
of the machine reset.  `Pending` says what they hold in terms of the calls so far: a
reference sample followed by nothing but the still samples counted.

## What is load-bearing

* The readings are `int16_t` and are subtracted after promotion to `int`; the sums are 32 bits
  wide, and a hundred readings of a still sensor are far from filling them.
* Stillness is judged against the reference sample, not against the sample before.  A drift
  slower than the limits therefore ends a calibration as soon as it has gone too far.
* A sample that is not still puts the machine back to waiting.  The sums are not cleared there but
  with the next reference, so `Pending` speaks of them while counting only.
* The reference is not part of the hundred samples, and the mean is published one call after the
  last of them.
-/

namespace CannonCar

open MachineInt Trajectory

/-! ## The source -/

/-- `GYRO_SAMPLE_COUNT`. -/
def gyroSampleCount : ℕ := 100

/-- `GYRO_STATIC_LIMIT`. -/
def gyroStaticLimit : ℤ := 500

/-- `ACC_STATIC_LIMIT`. -/
def accStaticLimit : ℤ := 10

/-- `MAG_STATIC_LIMIT`. -/
def magStaticLimit : ℤ := 5

/-- `ABS`, on operands already promoted to `int`. -/
def Calibration.abs (a : ℤ) : ℤ := if a < 0 then -a else a

/-- The arguments of one call of `dcal_input`. -/
structure ImuSample where
  adata : Fin 3 → Int16
  gdata : Fin 3 → Int16
  mdata : Fin 3 → Int16

/-- `IsGyroStatic`, with the references it reads as arguments. -/
def IsGyroStatic (initalAcc initalMag : Fin 3 → Int16) (sample : ImuSample) : Prop :=
  (∀ k, Calibration.abs (sample.gdata k).toInt < gyroStaticLimit) ∧
    (∀ k, Calibration.abs ((sample.adata k).toInt - (initalAcc k).toInt) < accStaticLimit) ∧
    ∀ k, Calibration.abs ((sample.mdata k).toInt - (initalMag k).toInt) < magStaticLimit

instance (initalAcc initalMag : Fin 3 → Int16) (sample : ImuSample) :
    Decidable (IsGyroStatic initalAcc initalMag sample) :=
  inferInstanceAs (Decidable (_ ∧ _ ∧ _))

/-- The values of `states`. -/
inductive CalGyro
  | init
  | count
  | finish
  deriving DecidableEq

/-- The statics of the file and of `dcal_input`. -/
structure Calibration where
  gadj : Fin 3 → Int16
  initalAcc : Fin 3 → Int16
  initalMag : Fin 3 → Int16
  tempSum : Fin 3 → Int32
  states : CalGyro
  stillCount : ℕ

namespace Calibration

/-- The statics at power-up. -/
def start : Calibration := ⟨fun _ => 0, fun _ => 0, fun _ => 0, fun _ => 0, .init, 0⟩

/-- The count reached `GYRO_SAMPLE_COUNT`, the last test of `CAL_GYRO_COUNT`. -/
def full (st : Calibration) : Calibration :=
  if st.stillCount = gyroSampleCount then { st with states := .finish } else st

/-- `dcal_input`. -/
def dcalInput (st : Calibration) (sample : ImuSample) : Calibration :=
  match st.states with
  | .init =>
      let st := { st with initalAcc := sample.adata, initalMag := sample.mdata }
      if IsGyroStatic st.initalAcc st.initalMag sample then
        { st with tempSum := fun _ => 0, states := .count }
      else st
  | .count =>
      if IsGyroStatic st.initalAcc st.initalMag sample then
        full { st with tempSum := fun k => st.tempSum k + (sample.gdata k).toInt32,
                       stillCount := st.stillCount + 1 }
      else full { st with stillCount := 0, states := .init }
  | .finish =>
      { st with gadj := fun k => (st.tempSum k / 100).toInt16, stillCount := 0, states := .init }

/-! ## The period being measured -/

/-- The gyro readings of a period, added up on one axis. -/
def gyroSum (window : List ImuSample) (k : Fin 3) : ℤ :=
  (window.map fun sample => (sample.gdata k).toInt).sum

/-- All samples of a period are still against the reference sample. -/
def StillAgainst (ref : ImuSample) (window : List ImuSample) : Prop :=
  ∀ sample ∈ window, IsGyroStatic ref.adata ref.mdata sample

/-- The calls so far end in a reference sample and the still samples counted since, and
the sums are the sums over these. -/
structure Pending (calls : List ImuSample) (st : Calibration) (ref : ImuSample)
    (window : List ImuSample) : Prop where
  latest : ∃ older, calls = older ++ ref :: window
  counted : window.length = st.stillCount
  acc : st.initalAcc = ref.adata
  mag : st.initalMag = ref.mdata
  still : StillAgainst ref window
  sums : ∀ k, (st.tempSum k).toInt = gyroSum window k

/-- What the statics hold after the calls so far. -/
structure Ok (calls : List ImuSample) (st : Calibration) : Prop where
  idle : st.states = .init → st.stillCount = 0
  counting : st.states = .count →
    st.stillCount < gyroSampleCount ∧ ∃ ref window, Pending calls st ref window
  finished : st.states = .finish →
    st.stillCount = gyroSampleCount ∧ ∃ ref window, Pending calls st ref window

theorem gyroSum_concat (window : List ImuSample) (sample : ImuSample) (k : Fin 3) :
    gyroSum (window ++ [sample]) k = gyroSum window k + (sample.gdata k).toInt := by
  rw [gyroSum, List.map_append, List.sum_append, List.map_singleton, List.sum_singleton]
  rfl

theorem abs_lt_iff {a b : ℤ} : Calibration.abs a < b ↔ -b < a ∧ a < b := by
  unfold Calibration.abs
  split_ifs with negative <;> omega

/-- The readings of a still period keep their sum small. -/
theorem gyroSum_mem {ref : ImuSample} {window : List ImuSample} (still : StillAgainst ref window)
    (k : Fin 3) :
    -(499 * window.length) ≤ gyroSum window k ∧ gyroSum window k ≤ 499 * window.length := by
  induction window using List.reverseRecOn with
  | nil => exact ⟨le_rfl, le_rfl⟩
  | append_singleton window sample ih =>
      obtain ⟨lower, upper⟩ := ih fun s mem => still s (List.mem_append_left _ mem)
      obtain ⟨above, below⟩ := Calibration.abs_lt_iff.mp ((still sample (by simp)).1 k)
      rw [gyroSum_concat, List.length_append, List.length_singleton, Nat.cast_add, Nat.cast_one]
      unfold gyroStaticLimit at above below
      exact ⟨by linarith, by linarith⟩

/-- One more still reading does not overflow a sum. -/
theorem gyroSum_fits {ref sample : ImuSample} {window : List ImuSample}
    (still : StillAgainst ref window) (short : window.length < gyroSampleCount)
    (isStill : IsGyroStatic ref.adata ref.mdata sample) (k : Fin 3) :
    FitsSigned 32 (gyroSum window k + (sample.gdata k).toInt) := by
  obtain ⟨lower, upper⟩ := gyroSum_mem still k
  obtain ⟨above, below⟩ := Calibration.abs_lt_iff.mp (isStill.1 k)
  have few : (window.length : ℤ) < 100 := by exact_mod_cast short
  unfold gyroStaticLimit at above below
  constructor <;> norm_num <;> linarith

/-! ## One call -/

section Call

variable {calls : List ImuSample} {st : Calibration} (sample : ImuSample)

/-- Waiting: the sample becomes the reference, and opens a period if it is still. -/
theorem dcalInput_init (waiting : st.states = .init) :
    st.dcalInput sample = { st with
      initalAcc := sample.adata, initalMag := sample.mdata,
      tempSum := if IsGyroStatic sample.adata sample.mdata sample then fun _ => 0 else st.tempSum,
      states := if IsGyroStatic sample.adata sample.mdata sample then .count else .init } := by
  simp only [dcalInput, waiting]
  split_ifs <;> rfl

/-- Measuring: a still sample is added, and the hundredth closes the period. -/
theorem dcalInput_still (measuring : st.states = .count)
    (isStill : IsGyroStatic st.initalAcc st.initalMag sample) :
    st.dcalInput sample = { st with
      tempSum := fun k => st.tempSum k + (sample.gdata k).toInt32,
      stillCount := st.stillCount + 1,
      states := if st.stillCount + 1 = gyroSampleCount then .finish else .count } := by
  simp only [dcalInput, measuring, if_pos isStill, full]
  split_ifs <;> rfl

/-- Measuring: a sample that is not still ends the attempt. -/
theorem dcalInput_moved (measuring : st.states = .count)
    (moved : ¬ IsGyroStatic st.initalAcc st.initalMag sample) :
    st.dcalInput sample = { st with stillCount := 0, states := .init } := by
  simp only [dcalInput, measuring, if_neg moved, full]
  exact if_neg (by decide)

theorem dcalInput_finish (closed : st.states = .finish) :
    st.dcalInput sample = { st with
      gadj := fun k => (st.tempSum k / 100).toInt16, stillCount := 0, states := .init } := by
  simp only [dcalInput, closed]

/-- Only the call that finds a period closed assigns `gadj`. -/
theorem gadj_dcalInput (open_ : st.states ≠ .finish) : (st.dcalInput sample).gadj = st.gadj := by
  cases phase : st.states with
  | init => rw [dcalInput_init sample phase]
  | count =>
      by_cases isStill : IsGyroStatic st.initalAcc st.initalMag sample
      · rw [dcalInput_still sample phase isStill]
      · rw [dcalInput_moved sample phase isStill]
  | finish => exact absurd phase open_

variable {ref : ImuSample} {window : List ImuSample}

/-- The addition of a still reading to a sum, in 32 bits. -/
theorem Pending.sum_fits (pending : Pending calls st ref window)
    (short : st.stillCount < gyroSampleCount)
    (isStill : IsGyroStatic st.initalAcc st.initalMag sample) (k : Fin 3) :
    FitsSigned 32 ((st.tempSum k).toInt + (sample.gdata k).toInt) := by
  rw [pending.acc, pending.mag] at isStill
  rw [pending.sums]
  exact gyroSum_fits pending.still (pending.counted ▸ short) isStill k

/-- A still sample extends the period. -/
theorem Pending.extend (pending : Pending calls st ref window)
    (short : st.stillCount < gyroSampleCount)
    (isStill : IsGyroStatic st.initalAcc st.initalMag sample) (states : CalGyro) :
    Pending (calls ++ [sample])
      { st with tempSum := fun k => st.tempSum k + (sample.gdata k).toInt32,
                stillCount := st.stillCount + 1, states := states }
      ref (window ++ [sample]) := by
  have fits := pending.sum_fits sample short isStill
  rw [pending.acc, pending.mag] at isStill
  obtain ⟨older, split⟩ := pending.latest
  refine ⟨⟨older, ?_⟩, ?_, pending.acc, pending.mag, ?_, fun k => ?_⟩
  · rw [split, List.append_assoc, List.cons_append]
  · rw [List.length_append, List.length_singleton, pending.counted]
  · intro s mem
    rcases List.mem_append.mp mem with earlier | last
    · exact pending.still s earlier
    · rw [List.mem_singleton.mp last]
      exact isStill
  · have inRange := fits k
    show (st.tempSum k + (sample.gdata k).toInt32).toInt = gyroSum (window ++ [sample]) k
    rw [gyroSum_concat, ← pending.sums, Int32.toInt_add, Int16.toInt_toInt32]
    apply Int.bmod_eq_of_le
    · exact le_trans (by norm_num) inRange.1
    · exact lt_of_lt_of_le inRange.2 (by norm_num)

/-- The mean of a period of a hundred still samples. -/
theorem Pending.mean (pending : Pending calls st ref window)
    (complete : st.stillCount = gyroSampleCount) (k : Fin 3) :
    ((st.tempSum k / 100).toInt16).toInt = (gyroSum window k).tdiv 100 := by
  obtain ⟨lower, upper⟩ := gyroSum_mem pending.still k
  rw [pending.counted, complete, gyroSampleCount] at lower upper
  have quotient : (st.tempSum k / 100).toInt = (gyroSum window k).tdiv 100 := by
    rw [Int32.toInt_div_of_ne_right _ _ (by decide), pending.sums]
    rfl
  push_cast at lower upper
  have above : (499 * -100 : ℤ).tdiv 100 ≤ (gyroSum window k).tdiv 100 :=
    Int.tdiv_le_tdiv (by norm_num) (by linarith)
  have below : (gyroSum window k).tdiv 100 ≤ (499 * 100 : ℤ).tdiv 100 :=
    Int.tdiv_le_tdiv (by norm_num) (by linarith)
  rw [Int32.toInt_toInt16, quotient]
  apply Int.bmod_eq_of_le
  · exact le_trans (by decide) above
  · exact lt_of_le_of_lt below (by decide)

/-- What one call keeps. -/
theorem Ok.dcalInput (ok : Ok calls st) : Ok (calls ++ [sample]) (st.dcalInput sample) := by
  cases phase : st.states with
  | init =>
      rw [dcalInput_init sample phase]
      have fresh : st.stillCount = 0 := ok.idle phase
      by_cases isStill : IsGyroStatic sample.adata sample.mdata sample
      · rw [if_pos isStill, if_pos isStill]
        refine ⟨nofun, fun _ => ⟨?_, sample, [], ?_⟩, nofun⟩
        · rw [fresh]
          decide
        · exact ⟨⟨calls, rfl⟩, fresh.symm, rfl, rfl, nofun, fun _ => rfl⟩
      · rw [if_neg isStill, if_neg isStill]
        exact ⟨fun _ => fresh, nofun, nofun⟩
  | count =>
      obtain ⟨short, ref, window, pending⟩ := ok.counting phase
      by_cases isStill : IsGyroStatic st.initalAcc st.initalMag sample
      · rw [dcalInput_still sample phase isStill]
        by_cases last : st.stillCount + 1 = gyroSampleCount
        · rw [if_pos last]
          exact ⟨nofun, nofun, fun _ => ⟨last, ref, _, pending.extend sample short isStill _⟩⟩
        · rw [if_neg last]
          have shorter : st.stillCount + 1 < gyroSampleCount := lt_of_le_of_ne short last
          exact ⟨nofun, fun _ => ⟨shorter, ref, _, pending.extend sample short isStill _⟩, nofun⟩
      · rw [dcalInput_moved sample phase isStill]
        exact ⟨fun _ => rfl, nofun, nofun⟩
  | finish =>
      rw [dcalInput_finish sample phase]
      exact ⟨fun _ => rfl, nofun, nofun⟩

end Call

/-! ## Whole runs -/

/-- The statics after the calls of a run. -/
def after (calls : List ImuSample) : Calibration := run dcalInput start calls

theorem after_concat (calls : List ImuSample) (sample : ImuSample) :
    after (calls ++ [sample]) = (after calls).dcalInput sample :=
  run_concat dcalInput start calls sample

theorem ok_after (calls : List ImuSample) : Ok calls (after calls) := by
  induction calls using List.reverseRecOn with
  | nil => exact ⟨fun _ => rfl, nofun, nofun⟩
  | append_singleton calls sample ih =>
      rw [after_concat]
      exact ih.dcalInput sample

/-- **A calibration is one still period.**  A call after the calls `calls` either leaves
`gadj` alone, or finds behind it a reference sample and the hundred samples after that,
all still against the reference, and stores their mean, truncated; the last of the
hundred is the sample of the call before.  No sum it forms on the way leaves the range
of `int32_t`. -/
theorem gadj_from_still_period (calls : List ImuSample) (sample : ImuSample) :
    ((after calls).states ≠ .finish →
        ((after calls).dcalInput sample).gadj = (after calls).gadj) ∧
      ((after calls).states = .finish →
        ∃ older ref window, calls = older ++ ref :: window ∧ window.length = 100 ∧
          (∀ s ∈ window, IsGyroStatic ref.adata ref.mdata s) ∧
          ∀ k, (((after calls).dcalInput sample).gadj k).toInt =
            ((window.map fun s : ImuSample => (s.gdata k).toInt).sum).tdiv 100) ∧
      ((after calls).states = .count →
        IsGyroStatic (after calls).initalAcc (after calls).initalMag sample →
        ∀ k, FitsSigned 32 (((after calls).tempSum k).toInt + (sample.gdata k).toInt)) := by
  have ok : Ok calls (after calls) := ok_after calls
  refine ⟨gadj_dcalInput sample, fun closed => ?_, fun measuring isStill => ?_⟩
  · obtain ⟨complete, ref, window, pending⟩ := ok.finished closed
    obtain ⟨older, split⟩ := pending.latest
    refine ⟨older, ref, window, split, ?_, pending.still, fun k => ?_⟩
    · rw [pending.counted, complete]
      rfl
    · rw [dcalInput_finish sample closed]
      exact pending.mean complete k
  · obtain ⟨short, ref, window, pending⟩ := ok.counting measuring
    exact pending.sum_fits sample short isStill

/-- A sample at rest that turns at the rate 7 on every axis. -/
def resting : ImuSample := ⟨fun _ => 0, fun _ => 7, fun _ => 0⟩

/-- After a hundred and one samples at rest the next call publishes their mean. -/
theorem gadj_from_still_period_resting :
    (after (List.replicate 101 resting)).states = .finish ∧
      FitsSigned 32 (((after [resting]).tempSum 0).toInt + (resting.gdata 0).toInt) ∧
      ((after []).dcalInput resting).gadj = (after []).gadj ∧
      ∃ older ref window, List.replicate 101 resting = older ++ ref :: window ∧
        window.length = 100 ∧ (∀ s ∈ window, IsGyroStatic ref.adata ref.mdata s) ∧
        ∀ k, (((after (List.replicate 101 resting)).dcalInput resting).gadj k).toInt =
          ((window.map fun s : ImuSample => (s.gdata k).toInt).sum).tdiv 100 := by
  have closed : (after (List.replicate 101 resting)).states = .finish := by decide +kernel
  refine ⟨closed, ?_, ?_, ?_⟩
  · exact (gadj_from_still_period [resting] resting).2.2 (by decide) (by decide) 0
  · exact (gadj_from_still_period [] resting).1 (by decide)
  · exact (gadj_from_still_period (List.replicate 101 resting) resting).2.1 closed

end Calibration

end CannonCar
