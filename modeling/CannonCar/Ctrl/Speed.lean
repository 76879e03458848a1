import CannonCar.Foundation.Trajectory
import CannonCar.FlashUi
import CannonCar.Ftm

/-!
# The speed controller

`speedPID` and `speedCtrl` of `work/CTRL/ctrl.c`: an incremental controller whose
three terms, their sum and the accumulated output are all `int16_t` and are each
clamped by hand.

The function is cut where the clamps are.  `speedTerms` computes the three clamped
terms, `SpeedTerms.sum` is their combination before it is stored in an `int16_t`,
`SpeedTerms.speedPWMK` the increment, and `speedPID` the new state.  Every value
that C narrows goes through `toSigned 16`, so that "this sum never wraps" is a
statement about the model and not an assumption of it.

## What is load-bearing

The results of this module hold in every `FloatModel`: nothing is used of the three
conversions but that each of them lands in an `int16_t`.  What keeps the controller in bounds
is the order of the operations in the source.  Each term is clamped before it is added, so
the sum of the three fits (`sum_fits`); the sum is clamped before it is accumulated, so the
accumulator fits (`accumulator_fits`); and the accumulator is clamped before it is stored in
the static the next call starts from, which is the invariant `SpeedState.Ok`.

A call is a `SpeedCall` with its own gains and setting, so that a run may change them from
one call to the next, as the menu does.
-/

namespace CannonCar

open MachineInt Trajectory

/-! ## The limits of `ctrl.h` -/

/-- `KPPLUSMAX`. -/
def kpPlusMax : ℤ := 190
/-- `KPNEGATIVEMAX`. -/
def kpNegativeMax : ℤ := -190
/-- `KIPLUSMAX`. -/
def kiPlusMax : ℤ := 190
/-- `KINEGATIVEMAX`. -/
def kiNegativeMax : ℤ := -190
/-- `KDPLUSMAX`. -/
def kdPlusMax : ℤ := 190
/-- `KDNEGATIVEMAX`. -/
def kdNegativeMax : ℤ := -190
/-- `KWPLUSMAX`, the largest increment of the output in one call. -/
def kwPlusMax : ℤ := 190
/-- `KWNEGATIVEMAX`. -/
def kwNegativeMax : ℤ := -190
/-- `KOUPLUSMAX`, the largest output. -/
def kouPlusMax : ℤ := 5000

/-- The clamp idiom of `ctrl.c`: the upper limit is tested first. -/
def clampTerm (plusMax negativeMax x : ℤ) : ℤ :=
  if x > plusMax then plusMax else if x < negativeMax then negativeMax else x

theorem clampTerm_mem {plusMax negativeMax : ℤ} (h : negativeMax ≤ plusMax) (x : ℤ) :
    negativeMax ≤ clampTerm plusMax negativeMax x ∧ clampTerm plusMax negativeMax x ≤ plusMax := by
  unfold clampTerm
  split_ifs <;> omega

/-! ## `speedPID` -/

/-- The statics of `speedPID` and the global `result`. -/
structure SpeedState where
  lastSpeedCut0 : ℤ
  lastSpeedCut1 : ℤ
  lastSpeedCut2 : ℤ
  speedLastPWMK : ℤ
  result : ℤ
  deriving DecidableEq

/-- Statics and globals start at zero. -/
def SpeedState.init : SpeedState := ⟨0, 0, 0, 0, 0⟩

/-- The three terms of one call, after their clamps. -/
structure SpeedTerms where
  speedPWMKP : ℤ
  speedPWMKI : ℤ
  speedPWMKD : ℤ

/-- `SpeedPWMKD-SpeedPWMKI+SpeedPWMKP`, before it is narrowed. -/
def SpeedTerms.sum (t : SpeedTerms) : ℤ := t.speedPWMKD - t.speedPWMKI + t.speedPWMKP

/-- The increment `SpeedPWMK` after its clamp. -/
def SpeedTerms.speedPWMK (t : SpeedTerms) : ℤ :=
  clampTerm kwPlusMax kwNegativeMax (toSigned 16 t.sum)

variable (fm : FloatModel)

/-- The terms `speedPID(nowValue)` computes from the gains `speedpid`, the setting
`speed` and its statics. -/
def speedTerms (speedpid : PID) (speed nowValue : ℤ) (st : SpeedState) : SpeedTerms :=
  let lastSpeedCut0 := toSigned 16 nowValue
  let dSpeed := toSigned 16 speed
  let speedDifference0 := toSigned 16 (dSpeed - lastSpeedCut0)
  let speedDEARE1 := toSigned 16 (lastSpeedCut0 - st.lastSpeedCut1)
  let speedDEARE2 := toSigned 16 (st.lastSpeedCut2 + lastSpeedCut0 - 2 * st.lastSpeedCut1)
  { speedPWMKP := clampTerm kpPlusMax kpNegativeMax
      (fm.toI16 (fm.rnd (speedpid.p * speedDifference0)))
    speedPWMKI := clampTerm kiPlusMax kiNegativeMax
      (fm.toI16 (fm.rnd (speedpid.i * speedDEARE1)))
    speedPWMKD := clampTerm kdPlusMax kdNegativeMax
      (fm.toI16 (fm.rnd (speedpid.d * speedDEARE2))) }

/-- The clamp of `SpeedPWMOUT`. -/
def clampOut (x : ℤ) : ℤ := if x < 0 then 0 else if x > kouPlusMax then kouPlusMax else x

/-- `speedPID(nowValue)`. -/
def speedPID (speedpid : PID) (speed nowValue : ℤ) (st : SpeedState) : SpeedState :=
  let t := speedTerms fm speedpid speed nowValue st
  let speedPWMOUT := clampOut (toSigned 16 (st.speedLastPWMK + t.speedPWMK))
  { lastSpeedCut0 := toSigned 16 nowValue
    lastSpeedCut1 := toSigned 16 nowValue
    lastSpeedCut2 := st.lastSpeedCut1
    speedLastPWMK := speedPWMOUT
    result := speedPWMOUT }

/-! ## `speedCtrl` -/

/-- The duty `speedCtrl` passes on: `result` added to an `u32` zero, capped. -/
def speedDuty (result : ℤ) : ℕ :=
  let duty := toUnsigned 32 result
  if duty > 5000 then 5000 else duty

/-- `speedCtrl`, on the controller and on the PWM modules. -/
def speedCtrl (speedpid : PID) (speed encode : ℤ) (st : SpeedState) (pwm : Pwm) :
    SpeedState × Pwm :=
  let st := speedPID fm speedpid speed (toUnsigned 32 encode) st
  let pwm := pwm.changeDuty .speedCtrl 0 3 (speedDuty st.result)
  (st, pwm.changeDuty .speedCtrl 0 2 0)

/-! ## What one call does -/

/-- Whatever the conversions leave, the three terms stay within their limits. -/
theorem speedTerms_mem (speedpid : PID) (speed nowValue : ℤ) (st : SpeedState) :
    let t := speedTerms fm speedpid speed nowValue st
    (-190 ≤ t.speedPWMKP ∧ t.speedPWMKP ≤ 190) ∧ (-190 ≤ t.speedPWMKI ∧ t.speedPWMKI ≤ 190) ∧
      -190 ≤ t.speedPWMKD ∧ t.speedPWMKD ≤ 190 :=
  ⟨clampTerm_mem (by decide) _, clampTerm_mem (by decide) _, clampTerm_mem (by decide) _⟩

/-- The sum of the terms fits the `int16_t` it is stored in. -/
theorem sum_fits (speedpid : PID) (speed nowValue : ℤ) (st : SpeedState) :
    FitsSigned 16 (speedTerms fm speedpid speed nowValue st).sum := by
  obtain ⟨hP, hI, hD⟩ := speedTerms_mem fm speedpid speed nowValue st
  unfold FitsSigned SpeedTerms.sum
  omega

theorem speedPWMK_mem (t : SpeedTerms) : -190 ≤ t.speedPWMK ∧ t.speedPWMK ≤ 190 :=
  clampTerm_mem (by decide) _

/-- The controller invariant: the accumulator is the last `result`, and both are
legal outputs. -/
structure SpeedState.Ok (st : SpeedState) : Prop where
  nonneg : 0 ≤ st.speedLastPWMK
  le : st.speedLastPWMK ≤ 5000
  result_eq : st.result = st.speedLastPWMK

theorem SpeedState.ok_init : SpeedState.init.Ok := ⟨by decide, by decide, rfl⟩

theorem clampOut_mem (x : ℤ) : 0 ≤ clampOut x ∧ clampOut x ≤ 5000 := by
  unfold clampOut kouPlusMax
  split_ifs <;> omega

/-- Every call leaves the invariant, from any state. -/
theorem ok_speedPID (speedpid : PID) (speed nowValue : ℤ) (st : SpeedState) :
    (speedPID fm speedpid speed nowValue st).Ok :=
  ⟨(clampOut_mem _).1, (clampOut_mem _).2, rfl⟩

/-- From a legal accumulator the addition of the increment does not wrap. -/
theorem accumulator_fits {st : SpeedState} (ok : st.Ok) (t : SpeedTerms) :
    FitsSigned 16 (st.speedLastPWMK + t.speedPWMK) := by
  have hK := speedPWMK_mem t
  have h0 := ok.nonneg
  have h1 := ok.le
  unfold FitsSigned
  omega

/-- The new accumulator is the old one moved by the increment, clamped. -/
theorem speedLastPWMK_speedPID {st : SpeedState} (ok : st.Ok) (speedpid : PID)
    (speed nowValue : ℤ) :
    (speedPID fm speedpid speed nowValue st).speedLastPWMK =
      clampOut (st.speedLastPWMK + (speedTerms fm speedpid speed nowValue st).speedPWMK) := by
  rw [speedPID, toSigned_eq_self (accumulator_fits ok _)]

/-- One call moves the accumulator by at most `KWPLUSMAX`. -/
theorem slew_speedPID {st : SpeedState} (ok : st.Ok) (speedpid : PID) (speed nowValue : ℤ) :
    |(speedPID fm speedpid speed nowValue st).speedLastPWMK - st.speedLastPWMK| ≤ kwPlusMax := by
  have hK := speedPWMK_mem (speedTerms fm speedpid speed nowValue st)
  have h0 := ok.nonneg
  have h1 := ok.le
  rw [speedLastPWMK_speedPID fm ok, abs_le]
  unfold clampOut kouPlusMax kwPlusMax
  split_ifs <;> omega

/-- A legal `result` is passed on as it is: the cap of `speedCtrl` is never hit. -/
theorem speedDuty_of_ok {st : SpeedState} (ok : st.Ok) :
    toUnsigned 32 st.result ≤ 5000 ∧ speedDuty st.result = toUnsigned 32 st.result ∧
      (speedDuty st.result : ℤ) = st.result := by
  have h0 := ok.nonneg
  have h1 := ok.le
  have hresult := ok.result_eq
  have value : (toUnsigned 32 st.result : ℤ) = st.result :=
    toUnsigned_eq_self ⟨by omega, by omega⟩
  have cap : toUnsigned 32 st.result ≤ 5000 := by omega
  have same : speedDuty st.result = toUnsigned 32 st.result := if_neg (by omega)
  exact ⟨cap, same, by rw [same, value]⟩

/-! ## Runs of the controller -/

/-- What a call of `speedPID` reads from outside: the gains and the setting, which the
menu may have changed since the last call, and the encoder reading. -/
structure SpeedCall where
  speedpid : PID
  speed : ℤ
  nowValue : ℤ

/-- The system whose inputs are calls of `speedPID`. -/
def speedStep (st : SpeedState) (c : SpeedCall) : SpeedState :=
  speedPID fm c.speedpid c.speed c.nowValue st

/-- The controller before the `k`-th call of a sequence. -/
def speedAt (calls : ℕ → SpeedCall) (k : ℕ) : SpeedState :=
  orbit (speedStep fm) SpeedState.init calls k

theorem ok_speedAt (calls : ℕ → SpeedCall) (k : ℕ) : (speedAt fm calls k).Ok :=
  orbit_invariant (fun _ _ _ => ok_speedPID fm _ _ _ _) SpeedState.ok_init calls k

/-- **The speed loop is bounded and slew-limited.**  Along every sequence of calls,
with any readings, gains and settings and for any outcome of the three conversions:
`result` is a legal output and moves by at most `KWPLUSMAX` per call, no `int16_t`
sum wraps, the cap of `speedCtrl` is never hit, and the compare value programmed
for CH3 is the duty's share of the period. -/
theorem speedPID_bounded (calls : ℕ → SpeedCall) (k : ℕ) :
    let st := speedAt fm calls k
    let st' := speedAt fm calls (k + 1)
    let t := speedTerms fm (calls k).speedpid (calls k).speed (calls k).nowValue st
    (0 ≤ st'.result ∧ st'.result ≤ kouPlusMax) ∧
      |st'.result - st.result| ≤ kwPlusMax ∧
      toSigned 16 t.sum = t.sum ∧
      toSigned 16 (st.speedLastPWMK + t.speedPWMK) = st.speedLastPWMK + t.speedPWMK ∧
      (toUnsigned 32 st'.result ≤ 5000 ∧ (speedDuty st'.result : ℤ) = st'.result) ∧
      ∀ f : FTM, f.mod.toNat * speedDuty st'.result < 2 ^ 32 ∧
        ((f.changeDuty 3 (speedDuty st'.result)).cnv 3).toNat =
          f.mod.toNat * speedDuty st'.result / 10000 ∧
        f.mod.toNat * speedDuty st'.result / 10000 ≤ f.mod.toNat := by
  intro st st' t
  have ok : st.Ok := ok_speedAt fm calls k
  have ok' : st'.Ok := ok_speedAt fm calls (k + 1)
  have step : st' = speedPID fm (calls k).speedpid (calls k).speed (calls k).nowValue st := rfl
  obtain ⟨cap, same, value⟩ := speedDuty_of_ok ok'
  refine ⟨?_, ?_, ?_, ?_, ⟨cap, value⟩, fun f => ?_⟩
  · rw [ok'.result_eq]
    exact ⟨ok'.nonneg, ok'.le⟩
  · rw [ok'.result_eq, ok.result_eq, step]
    exact slew_speedPID fm ok _ _ _
  · exact toSigned_eq_self (sum_fits fm _ _ _ _)
  · exact toSigned_eq_self (accumulator_fits ok t)
  · have hduty : speedDuty st'.result ≤ 10000 := by omega
    obtain ⟨fits, cnv, le⟩ := dutyToCnv_spec f.mod hduty
    have hmod := f.mod.isLt
    refine ⟨fits, ?_, by omega⟩
    rw [FTM.changeDuty_cnv_odd f rfl, BitVec.toNat_ofNat, Nat.mod_eq_of_lt (by omega), cnv]

end CannonCar
