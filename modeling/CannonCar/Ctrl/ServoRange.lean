import CannonCar.Ctrl.SteerExtremes
import CannonCar.Ui.Editor

/-!
# The mechanical range of the servo

The call that moves the servo names its range, 900 below and 1000 above `MEDIAN`.
The two positions of a lost line are the ends of that range; what `streePID` computes
is not held to it.  This module says which gains, which histories and which single ticks
keep it.

## What a tick asks for

`turnDemand` is what the gains make of the fit of this tick and of the fit of the last tick
that steered (`lastFit`, which `error1_steerAt` finds in `error[1]`), saturated and added up
as the code does.  `steerBy` is the same without saturation.  The two may differ: a sum of
two saturated terms can wrap back into the range.  A term that is itself a deflection rules
this out (`deflection_iff`), and every history in which a difference stands for two ticks
shows the proportional term alone.

## Gains over all histories

The demand is monotone in the last fit, so that of all earlier ticks only the two extremes of
the fit matter: full scale on one side, where the conversion saturates, and a difference of
17.  Both can stand before any tick that sees the line (`seeingAfter`).  For gains of one sign
the demand is monotone in the present fit as well, and the four pairs of extremes decide
(`ServoGains`); this holds on the target as in exact rationals.  For gains of opposite signs
the two terms work against each other.  In exact rationals the extremes still decide, because
truncations of parts add up to no more than that of the whole (`weighted_lt`) and the
saturated fit is far enough from the next one (`reached_against_with`); on the target the
roundings of the products would have to be followed fit by fit, and every fit is asked for
(`ServoGainsThroughout`).

The fit is a quartic, so a difference of 60 already asks for more than two million
hundredths, and the gains that pass are below a twenty-thousandth.  Of what the menu shows
that is 0.0 alone.
-/

namespace CannonCar

open MachineInt Trajectory Foundation FloatModel

/-- A snapshot of 12-bit readings, with the difference taken from the same readings. -/
structure SteerInput.Measured (r : SteerInput) : Prop where
  ad3 : 0 ≤ r.ad3 ∧ r.ad3 < 4096
  ad4 : 0 ≤ r.ad4 ∧ r.ad4 < 4096
  sumDiff : r.sumDiff = (r.ad3 - r.ad4 : ℤ)

variable (fm : FloatModel)

/-- Of measured readings, `streePID` gets the exact difference. -/
theorem SteerInput.Measured.argument {r : SteerInput} (h : r.Measured) :
    fm.toI32 r.sumDiff = r.ad3 - r.ad4 := by
  obtain ⟨⟨low3, high3⟩, ⟨low4, high4⟩, difference⟩ := h
  have fits : FitsSigned 32 (r.ad3 - r.ad4) := ⟨by norm_num; omega, by norm_num; omega⟩
  rw [difference, fm.toI32_of_fits (by rwa [trunc_intCast]), trunc_intCast]

/-! ## What a tick asks of the servo -/

/-- The fit at the last tick before `t` that steered, 0 if there is none. -/
def lastFit (inputs : ℕ → SteerInput) : ℕ → ℚ
  | 0 => 0
  | t + 1 =>
      if (inputs t).Steers then fm.rnd (streeFit fm ((inputs t).ad3 - (inputs t).ad4))
      else lastFit inputs t

/-- The deflection the gains ask for at the difference `n`, with `last` the fit of the
tick before: `(int)(0.01*p*x) + (int)(0.01*d*(x - last))`. -/
def turnDemand (streepid : PID) (n : ℤ) (last : ℚ) : ℤ :=
  let x := fm.rnd (streeFit fm n)
  fm.toI32 (fm.rnd (streeGain fm streepid.p * x)) +
    fm.toI32 (fm.rnd (streeGain fm streepid.d * fm.rnd (x - last)))

/-- A deflection the servo can make. -/
def Deflection (k : ℤ) : Prop := -900 ≤ toSigned 32 k ∧ toSigned 32 k ≤ 1000

instance : DecidablePred Deflection := fun _ => inferInstanceAs (Decidable (_ ∧ _))

/-- The readings and gains up to tick `t` keep it in range: the line is lost, or the
demand is a deflection the servo can make. -/
def ServoModerate (inputs : ℕ → SteerInput) (t : ℕ) : Prop :=
  lossLatch.stateAt inputs (t + 1) ≠ none ∨
    Deflection (turnDemand fm (inputs t).streepid ((inputs t).ad3 - (inputs t).ad4)
      (lastFit fm inputs t))

/-- The value tick `t` passes to `FTM_PWM_ChangeDuty` is in the range named at the
call, arrives as it is in the `uint32_t`, and scales with no wrap whatever `MOD` is. -/
def ServoInRange (inputs : ℕ → SteerInput) (t : ℕ) : Prop :=
  let value := (steerAt fm inputs (t + 1)).resultturn
  let duty := (steerCalls fm inputs t).changeDuty
  (median - 900 ≤ value ∧ value ≤ median + 1000) ∧ (duty : ℤ) = value ∧
    ∀ mod : BitVec 16, mod.toNat * duty < 2 ^ 32

/-- The derivative term works on the last fit. -/
theorem error1_steerAt {inputs : ℕ → SteerInput} (measured : ∀ t, (inputs t).Measured) (t : ℕ) :
    (steerAt fm inputs t).error1 = lastFit fm inputs t := by
  induction t with
  | zero => rfl
  | succ t ih =>
      rw [steerAt_succ, lastFit, ← (measured t).argument fm, ← ih]
      by_cases steers : (inputs t).Steers
      · simp [ctrl, steers, streePID]
      · simp [ctrl, steers]

/-- A reduced sum with `MEDIAN` is in range exactly when the reduced rest is a
deflection. -/
theorem median_add_mem_iff (p d : ℤ) :
    (median - 900 ≤ toSigned 32 (median + p + d) ∧ toSigned 32 (median + p + d) ≤ median + 1000) ↔
      Deflection (p + d) := by
  unfold Deflection median toSigned
  norm_num
  omega

/-- Where the line is seen, a tick passes on `MEDIAN` and its demand; a lost line is
answered from within the range. -/
theorem resultturn_steerAt {inputs : ℕ → SteerInput} (measured : ∀ t, (inputs t).Measured)
    (t : ℕ) :
    (lossLatch.stateAt inputs (t + 1) ≠ none ∧
        ((steerAt fm inputs (t + 1)).resultturn = median - 900 ∨
          (steerAt fm inputs (t + 1)).resultturn = median + 1000)) ∨
      (lossLatch.stateAt inputs (t + 1) = none ∧
        ∃ p d, p + d = turnDemand fm (inputs t).streepid ((inputs t).ad3 - (inputs t).ad4)
            (lastFit fm inputs t) ∧
          (steerAt fm inputs (t + 1)).resultturn = toSigned 32 (median + p + d)) := by
  have flag : ctrlSpe (inputs t) (steerAt fm inputs t).spe =
      speOf (lossLatch.stateAt inputs (t + 1)) := by
    rw [← spe_ctrl fm, ← steerAt_succ, spe_steerAt]
  rw [steerAt_succ, resultturn_ctrl, flag]
  cases next : lossLatch.stateAt inputs (t + 1) with
  | none =>
      rw [lossLatch.stateAt_succ] at next
      have seen : (inputs t).Steers := SteerInput.steers_of_not_lost (not_lost_of_step_none next)
      refine Or.inr ⟨rfl, _, _, rfl, ?_⟩
      rw [if_neg (by decide), if_neg (by decide), if_pos seen, (measured t).argument fm, streePID,
        error1_steerAt fm measured]
  | some side =>
      refine Or.inl ⟨Option.some_ne_none side, ?_⟩
      cases side with
      | left => exact Or.inl rfl
      | right => exact Or.inr rfl

/-- A value in the range arrives as it is and scales with no wrap. -/
theorem servoInRange_iff_mem (inputs : ℕ → SteerInput) (t : ℕ) :
    ServoInRange fm inputs t ↔
      median - 900 ≤ (steerAt fm inputs (t + 1)).resultturn ∧
        (steerAt fm inputs (t + 1)).resultturn ≤ median + 1000 := by
  refine ⟨fun h => h.1, fun range => ⟨range, ?_⟩⟩
  have passed : (steerCalls fm inputs t).changeDuty =
      toUnsigned 32 (steerAt fm inputs (t + 1)).resultturn :=
    rfl
  have fits : FitsUnsigned 32 (steerAt fm inputs (t + 1)).resultturn := by
    unfold median at range
    exact ⟨by omega, by norm_num; omega⟩
  have duty : ((steerCalls fm inputs t).changeDuty : ℤ) =
      (steerAt fm inputs (t + 1)).resultturn := by
    rw [passed, toUnsigned_eq_self fits]
  refine ⟨duty, fun mod => (dutyToCnv_spec mod ?_).1⟩
  unfold median at range
  omega

/-- **When a tick stays in range**, in any arithmetic. -/
theorem servoInRange_iff {inputs : ℕ → SteerInput} (measured : ∀ t, (inputs t).Measured) (t : ℕ) :
    ServoInRange fm inputs t ↔ ServoModerate fm inputs t := by
  rw [servoInRange_iff_mem]
  rcases resultturn_steerAt fm measured t with ⟨lost, value⟩ | ⟨seen, p, d, demand, value⟩
  · have moderate : ServoModerate fm inputs t := Or.inl lost
    refine iff_of_true ?_ moderate
    rcases value with value | value <;> rw [value] <;> decide
  · rw [value, median_add_mem_iff, ServoModerate, demand]
    simp [seen]

/-! ## The demand, unreduced -/

/-- `(int)(0.01*g*e)`, before it saturates. -/
def weigh (g e : ℚ) : ℤ := trunc (fm.rnd (streeGain fm g * fm.rnd e))

/-- The deflection the gains ask for at the error `x` after the error `last`. -/
def steerBy (streepid : PID) (x last : ℚ) : ℤ :=
  weigh fm streepid.p x + weigh fm streepid.d (x - last)

/-- A deflection the servo can make, unreduced. -/
def Reached (k : ℤ) : Prop := -900 ≤ k ∧ k ≤ 1000

instance : DecidablePred Reached := fun _ => inferInstanceAs (Decidable (_ ∧ _))

/-- A term that is itself a deflection leaves the other no room to wrap. -/
theorem deflection_iff {a b : ℤ} (reached : Reached a) :
    Deflection (saturateSigned 32 a + saturateSigned 32 b) ↔ Reached (a + b) := by
  unfold Reached at reached
  unfold Deflection Reached toSigned saturateSigned
  norm_num
  omega

/-- A term alone cannot wrap. -/
theorem deflection_alone_iff (a : ℤ) :
    Deflection (saturateSigned 32 a + saturateSigned 32 0) ↔ Reached a := by
  unfold Deflection Reached toSigned saturateSigned
  norm_num
  omega

theorem reached_of_between {a b k : ℤ} (low : Reached a) (high : Reached b) (le : a ≤ k)
    (ge : k ≤ b) : Reached k :=
  ⟨low.1.trans le, ge.trans high.2⟩

section Weigh

variable {fm} (arith : SteerArithmetic fm)
include arith

/-- A demand is two weighted errors, saturated. -/
theorem turnDemand_eq (streepid : PID) (n : ℤ) (last : ℚ) :
    turnDemand fm streepid n last =
      saturateSigned 32 (weigh fm streepid.p (fm.rnd (streeFit fm n))) +
        saturateSigned 32 (weigh fm streepid.d (fm.rnd (streeFit fm n) - last)) := by
  unfold turnDemand weigh
  dsimp only
  rw [arith.saturates, arith.saturates, arith.rounds.rnd_rnd]

theorem streeGain_mono : Monotone (streeGain fm) := by
  intro a b le
  have hundredth : 0 ≤ fm.rndD (1 / 100) :=
    arith.rounds.le_rndD arith.rounds.rnd_zero (by norm_num)
  exact arith.rounds.mono (arith.rounds.monoD (mul_le_mul_of_nonneg_right le hundredth))

theorem streeGain_zero : streeGain fm 0 = 0 := by
  rw [streeGain, zero_mul, arith.rounds.rndD_eq_self arith.rounds.rnd_zero, arith.rounds.rnd_zero]

theorem weigh_mono {g : ℚ} (nonneg : 0 ≤ g) : Monotone (weigh fm g) := by
  intro a b le
  have gain := streeGain_mono arith nonneg
  rw [streeGain_zero arith] at gain
  exact trunc_mono (arith.rounds.mono (mul_le_mul_of_nonneg_left (arith.rounds.mono le) gain))

theorem weigh_antitone {g : ℚ} (nonpos : g ≤ 0) : Antitone (weigh fm g) := by
  intro a b le
  have gain := streeGain_mono arith nonpos
  rw [streeGain_zero arith] at gain
  exact trunc_mono (arith.rounds.mono (mul_le_mul_of_nonpos_left (arith.rounds.mono le) gain))

/-- An error that has not changed asks for nothing. -/
theorem weigh_zero (g : ℚ) : weigh fm g 0 = 0 := by
  rw [weigh, arith.rounds.rnd_zero, mul_zero, arith.rounds.rnd_zero]
  rfl

/-- A gain at zero asks for nothing. -/
theorem zero_weigh (e : ℚ) : weigh fm 0 e = 0 := by
  rw [weigh, streeGain_zero arith, zero_mul, arith.rounds.rnd_zero]
  rfl

theorem steerBy_self (streepid : PID) (x : ℚ) :
    steerBy fm streepid x x = weigh fm streepid.p x := by
  rw [steerBy, sub_self, weigh_zero arith, add_zero]

end Weigh

/-! ## The gains that keep the range over all histories -/

/-- Every tick of every history of 12-bit readings keeps the range. -/
def KeepsServoRange (streepid : PID) : Prop :=
  ∀ inputs : ℕ → SteerInput, (∀ t, (inputs t).Measured ∧ (inputs t).streepid = streepid) →
    ∀ t, ServoInRange fm inputs t

/-- The least fit, at full scale on one side, and the greatest, at a difference of 17. -/
def fitExtremes : List ℚ := [-2147483648, 20079]

/-- The servo can follow from either extreme of the fit to either. -/
def ServoGains (streepid : PID) : Prop :=
  ∀ x ∈ fitExtremes, ∀ last ∈ fitExtremes, Reached (steerBy fm streepid x last)

instance : DecidablePred (ServoGains fm) := fun _ =>
  inferInstanceAs (Decidable (∀ _ ∈ _, ∀ _ ∈ _, _))

/-- The servo can follow from either extreme of the fit to every fit. -/
def ServoGainsThroughout (streepid : PID) : Prop :=
  ∀ n : ℤ, |n| ≤ 4035 → ∀ last ∈ fitExtremes,
    Reached (steerBy fm streepid (fm.rnd (streeFit fm n)) last)

theorem forall_fitExtremes {P : ℚ → Prop} :
    (∀ last ∈ fitExtremes, P last) ↔ P (-2147483648) ∧ P 20079 := by
  rw [fitExtremes, List.forall_mem_cons, List.forall_mem_singleton]

/-- An error between the extremes. -/
def Fitted (x : ℚ) : Prop := -2147483648 ≤ x ∧ x ≤ 20079

section Extremes

variable {fm} (arith : SteerArithmetic fm)
include arith

theorem fitted_streeFit {n : ℤ} (small : |n| ≤ 4095) : Fitted (fm.rnd (streeFit fm n)) :=
  rnd_streeFit_mem arith (small.trans (by decide))

theorem fitted_lastFit {inputs : ℕ → SteerInput} (measured : ∀ t, (inputs t).Measured) (t : ℕ) :
    Fitted (lastFit fm inputs t) := by
  induction t with
  | zero => exact ⟨by norm_num [lastFit], by norm_num [lastFit]⟩
  | succ t ih =>
      obtain ⟨⟨low3, high3⟩, ⟨low4, high4⟩, -⟩ := measured t
      rw [lastFit]
      split_ifs
      · exact fitted_streeFit arith (abs_le.mpr ⟨by omega, by omega⟩)
      · exact ih

/-- Between the extremes of the last error the demand is between what it is there. -/
theorem reached_of_extremes {streepid : PID} {x last : ℚ}
    (ends : ∀ last ∈ fitExtremes, Reached (steerBy fm streepid x last)) (fitted : Fitted last) :
    Reached (steerBy fm streepid x last) := by
  obtain ⟨least, greatest⟩ := forall_fitExtremes.mp ends
  obtain ⟨low, high⟩ := fitted
  rcases le_total 0 streepid.d with nonneg | nonpos
  · exact reached_of_between greatest least
      (add_le_add_right (weigh_mono arith nonneg (by linarith)) _)
      (add_le_add_right (weigh_mono arith nonneg (by linarith)) _)
  · exact reached_of_between least greatest
      (add_le_add_right (weigh_antitone arith nonpos (by linarith)) _)
      (add_le_add_right (weigh_antitone arith nonpos (by linarith)) _)

/-- What the gains can follow from the extremes they follow in every history. -/
theorem keeps_of_throughout {streepid : PID} (gains : ServoGainsThroughout fm streepid) :
    KeepsServoRange fm streepid := by
  intro inputs given t
  have measured := fun t => (given t).1
  rw [servoInRange_iff fm measured]
  cases next : lossLatch.stateAt inputs (t + 1) with
  | some side => exact Or.inl (next ▸ Option.some_ne_none side)
  | none =>
      rw [lossLatch.stateAt_succ] at next
      have seen := not_lost_of_step_none next
      obtain ⟨⟨low3, high3⟩, ⟨low4, high4⟩, -⟩ := measured t
      simp only [SteerInput.Lost, not_or, not_lt] at seen
      have small : |(inputs t).ad3 - (inputs t).ad4| ≤ 4035 := abs_le.mpr ⟨by omega, by omega⟩
      have ends := gains _ small
      have fitted := fitted_streeFit arith (small.trans (by decide))
      have alone := reached_of_extremes arith ends fitted
      rw [steerBy_self arith] at alone
      refine Or.inr ?_
      rw [(given t).2, turnDemand_eq arith, deflection_iff alone]
      exact reached_of_extremes arith ends (fitted_lastFit arith measured t)

end Extremes

/-! ### Two snapshots -/

/-- A snapshot of the difference `n` that loses neither coil. -/
def seeing (streepid : PID) (n : ℤ) : SteerInput :=
  ⟨streepid, 60 + max n 0, 60 + max (-n) 0, ((60 + max n 0 - (60 + max (-n) 0) : ℤ) : ℚ)⟩

/-- The difference `m` once, `n` ever after. -/
def seeingAfter (streepid : PID) (m n : ℤ) : ℕ → SteerInput
  | 0 => seeing streepid m
  | _ + 1 => seeing streepid n

theorem measured_seeing (streepid : PID) {n : ℤ} (small : |n| ≤ 4035) :
    (seeing streepid n).Measured := by
  obtain ⟨low, high⟩ := abs_le.mp small
  refine ⟨?_, ?_, ?_⟩
  · show 0 ≤ 60 + max n 0 ∧ 60 + max n 0 < 4096
    omega
  · show 0 ≤ 60 + max (-n) 0 ∧ 60 + max (-n) 0 < 4096
    omega
  · rfl

theorem difference_seeing (streepid : PID) (n : ℤ) :
    (seeing streepid n).ad3 - (seeing streepid n).ad4 = n := by
  show 60 + max n 0 - (60 + max (-n) 0) = n
  omega

theorem not_lost_seeing (streepid : PID) (n : ℤ) : ¬ (seeing streepid n).Lost := by
  show ¬ (60 + max n 0 < 60 ∨ 60 + max (-n) 0 < 60)
  omega

theorem given_seeingAfter (streepid : PID) {m n : ℤ} (small : |m| ≤ 4035) (small' : |n| ≤ 4035)
    (t : ℕ) : (seeingAfter streepid m n t).Measured ∧
      (seeingAfter streepid m n t).streepid = streepid := by
  cases t with
  | zero => exact ⟨measured_seeing streepid small, rfl⟩
  | succ t => exact ⟨measured_seeing streepid small', rfl⟩

/-- A coil that is never lost leaves the latch empty. -/
theorem stateAt_of_not_lost {inputs : ℕ → SteerInput} (seen : ∀ t, ¬ (inputs t).Lost) (t : ℕ) :
    lossLatch.stateAt inputs t = none := by
  induction t with
  | zero => rfl
  | succ t ih =>
      rw [lossLatch.stateAt_succ, ih, lossLatch.step_none]
      exact (trigger_eq_none_iff _).mpr (seen t)

/-- The second tick follows from the first difference to the second. -/
theorem deflection_of_keeps {streepid : PID} (keeps : KeepsServoRange fm streepid) {m n : ℤ}
    (small : |m| ≤ 4035) (small' : |n| ≤ 4035) :
    Deflection (turnDemand fm streepid n (fm.rnd (streeFit fm m))) := by
  have given := given_seeingAfter streepid small small'
  have range := keeps _ given 1
  rw [servoInRange_iff fm fun t => (given t).1] at range
  have seen : ∀ t, ¬ (seeingAfter streepid m n t).Lost := by
    intro t
    cases t with
    | zero => exact not_lost_seeing streepid m
    | succ t => exact not_lost_seeing streepid n
  have demand := range.resolve_left fun lost => lost (stateAt_of_not_lost seen 2)
  have steers : (seeingAfter streepid m n 0).Steers := SteerInput.steers_of_not_lost (seen 0)
  rw [lastFit, if_pos steers] at demand
  have first : (seeingAfter streepid m n 0).ad3 - (seeingAfter streepid m n 0).ad4 = m :=
    difference_seeing streepid m
  have second : (seeingAfter streepid m n 1).ad3 - (seeingAfter streepid m n 1).ad4 = n :=
    difference_seeing streepid n
  rwa [first, second] at demand

theorem throughout_of_keeps {fm : FloatModel} (arith : SteerArithmetic fm) {streepid : PID}
    (keeps : KeepsServoRange fm streepid) : ServoGainsThroughout fm streepid := by
  intro n small
  -- the same difference twice shows the proportional term alone
  have alone := deflection_of_keeps fm keeps small small
  rw [turnDemand_eq arith, sub_self, weigh_zero arith, deflection_alone_iff] at alone
  have after : ∀ m : ℤ, |m| ≤ 4035 →
      Reached (steerBy fm streepid (fm.rnd (streeFit fm n)) (fm.rnd (streeFit fm m))) := by
    intro m small'
    have demand := deflection_of_keeps fm keeps small' small
    rwa [turnDemand_eq arith, deflection_iff alone] at demand
  rw [forall_fitExtremes]
  have least := after 4035 (by decide)
  have greatest := after 17 (by decide)
  rw [rnd_streeFit_least arith] at least
  rw [rnd_streeFit_greatest arith] at greatest
  exact ⟨least, greatest⟩

/-! ### From every fit to the extremes -/

section Corners

variable {fm} (arith : SteerArithmetic fm) {streepid : PID}
include arith

theorem servoGains_of_throughout (gains : ServoGainsThroughout fm streepid) :
    ServoGains fm streepid := by
  have least := gains 4035 (by decide)
  have greatest := gains 17 (by decide)
  rw [rnd_streeFit_least arith] at least
  rw [rnd_streeFit_greatest arith] at greatest
  exact forall_fitExtremes.mpr ⟨least, greatest⟩

/-- Gains of one sign ask for more the further the error goes. -/
theorem throughout_of_servoGains
    (sign : 0 ≤ streepid.p ∧ 0 ≤ streepid.d ∨ streepid.p ≤ 0 ∧ streepid.d ≤ 0)
    (gains : ServoGains fm streepid) : ServoGainsThroughout fm streepid := by
  intro n small last mem
  obtain ⟨low, high⟩ := fitted_streeFit arith (small.trans (by decide))
  obtain ⟨least, greatest⟩ := forall_fitExtremes.mp gains
  rcases sign with ⟨p, d⟩ | ⟨p, d⟩
  · exact reached_of_between (least last mem) (greatest last mem)
      (add_le_add (weigh_mono arith p low) (weigh_mono arith d (by linarith)))
      (add_le_add (weigh_mono arith p high) (weigh_mono arith d (by linarith)))
  · exact reached_of_between (greatest last mem) (least last mem)
      (add_le_add (weigh_antitone arith p high) (weigh_antitone arith d (by linarith)))
      (add_le_add (weigh_antitone arith p low) (weigh_antitone arith d (by linarith)))

end Corners

/-! ### Gains of opposite signs, in exact rationals -/

theorem weigh_exact (g e : ℚ) : weigh .exact g e = trunc (g / 100 * e) := by
  have gain : streeGain .exact g = g / 100 := by
    show g * (1 / 100) = g / 100
    ring
  rw [weigh, gain]
  rfl

/-- The saturated fit stands apart from the others. -/
theorem streeFit_exact_cases (n : ℤ) :
    streeFit .exact n = -2147483648 ∨ -2144844815 ≤ streeFit .exact n := by
  by_cases fits : FitsSigned 32 (trunc (fittedQuartic n))
  · obtain ⟨low, high⟩ := (fits_fittedQuartic_iff n).mp fits
    rw [streeFit_of_fits isExact_exact fits]
    exact Or.inr (le_trunc_fittedQuartic low high)
  · have value : streeFit .exact n = saturateSigned 32 (trunc (fittedQuartic n)) :=
      (streeFit_eq isExact_exact n).trans (saturates_exact _)
    have above := trunc_fittedQuartic_le n
    rw [value]
    unfold FitsSigned at fits
    unfold saturateSigned
    norm_num at fits ⊢
    omega

theorem trunc_eq_zero {q : ℚ} (low : -1 < q) (high : q < 1) : trunc q = 0 := by
  have below := (trunc_lt_iff (n := 1) (by decide) q).mpr (by exact_mod_cast high)
  have above := (lt_trunc_iff (n := -1) (by decide) q).mpr (by exact_mod_cast low)
  omega

/-- Weights on the two parts of a length ask for less than the larger one on the whole. -/
theorem weighted_lt {a b y c : ℚ} (ha : a * 2147483648 < c) (hb : b * 2147483648 < c)
    (low : 0 ≤ y) (high : y ≤ 2147483648) : a * y + b * (2147483648 - y) < c := by
  rcases le_total a b with le | le
  · have more := mul_le_mul_of_nonneg_right le low
    linarith
  · have more := mul_le_mul_of_nonneg_right le (sub_nonneg.mpr high)
    linarith

/-- A proportional gain that turns with the error and a derivative one that turns against
it. -/
theorem reached_with_against {a b x : ℚ} (ha : 0 ≤ a) (hb : 0 ≤ b) (fitted : Fitted x)
    (least : -900 ≤ trunc (a * -2147483648))
    (greatest : -900 ≤ trunc (a * 20079) + trunc (-b * (20079 - -2147483648))) :
    Reached (trunc (a * x) + trunc (-b * (x - -2147483648))) ∧
      Reached (trunc (a * x) + trunc (-b * (x - 20079))) := by
  obtain ⟨low, high⟩ := fitted
  have a901 : a * 2147483648 < 901 := by
    have apart := (lt_trunc_iff (n := -901) (by decide) (a * -2147483648)).mp (by omega)
    push_cast at apart
    linarith
  have top : trunc (a * 20079) = 0 := trunc_eq_zero (by linarith [ha]) (by linarith)
  have b901 : b * 2147503727 < 901 := by
    have apart := (lt_trunc_iff (n := -901) (by decide) (-b * (20079 - -2147483648))).mp
      (by omega)
    push_cast at apart
    linarith
  have rise : a * x ≤ a * 20079 := mul_le_mul_of_nonneg_left high ha
  have fall : a * -2147483648 ≤ a * x := mul_le_mul_of_nonneg_left low ha
  have up := trunc_mono rise
  have down := trunc_mono fall
  have ahead : b * (x + 2147483648) ≤ b * 2147503727 :=
    mul_le_mul_of_nonneg_left (by linarith) hb
  have ahead' : 0 ≤ b * (x + 2147483648) := mul_nonneg hb (by linarith)
  have behind : 0 ≤ b * (20079 - x) := mul_nonneg hb (by linarith)
  have behind' : b * (20079 - x) ≤ b * 2147503727 := mul_le_mul_of_nonneg_left (by linarith) hb
  constructor
  · have against := (trunc_bounds_of_nonpos
      (show -b * (x - -2147483648) ≤ 0 by linarith)).1
    have small : trunc (-b * (x - -2147483648)) < 1 :=
      (trunc_lt_iff (by decide) _).mpr (by push_cast; linarith)
    refine ⟨?_, by omega⟩
    have sum : (-901 : ℚ) < trunc (a * x) + trunc (-b * (x - -2147483648)) := by
      rcases le_total 0 x with pos | neg
      · have nonneg : (0 : ℚ) ≤ trunc (a * x) := by
          exact_mod_cast trunc_nonneg (mul_nonneg ha pos)
        linarith
      · have near := (trunc_bounds_of_nonpos (mul_nonpos_of_nonneg_of_nonpos ha neg)).1
        have parts := weighted_lt (y := -x) a901 (show b * 2147483648 < 901 by linarith)
          (by linarith) (by linarith)
        linarith
    have whole : -901 < trunc (a * x) + trunc (-b * (x - -2147483648)) := by exact_mod_cast sum
    omega
  · have nonneg : 0 ≤ trunc (-b * (x - 20079)) := trunc_nonneg (by linarith)
    have below : trunc (-b * (x - 20079)) < 901 :=
      (trunc_lt_iff (by decide) _).mpr (by push_cast; linarith)
    exact ⟨by omega, by omega⟩

/-- Where the two all but cancel, a fit that is not the saturated one is far enough off it for
the derivative term to lose more than the proportional one. -/
theorem against_with_ge {a b x : ℚ} (ha : 0 ≤ a) (hb : 0 ≤ b) (b1001 : b * 2147503727 < 1001)
    (apart : -2144844815 ≤ x) (neg : x ≤ 0)
    (across : -900 ≤ trunc (-a * -2147483648) + trunc (b * (-2147483648 - 20079))) :
    -900 ≤ trunc (-a * x) + trunc (b * (x - 20079)) := by
  by_contra short
  have against : -a ≤ 0 := by linarith
  have behind : 0 ≤ b * (20079 - x) := mul_nonneg hb (by linarith)
  have near := (trunc_bounds_of_nonneg (mul_nonneg_of_nonpos_of_nonpos against neg)).2
  have near' := (trunc_bounds_of_nonpos (show b * (x - 20079) ≤ 0 by linarith)).1
  have far := (trunc_bounds_of_nonneg (mul_nonneg_of_nonpos_of_nonpos against
    (show (-2147483648 : ℚ) ≤ 0 by norm_num))).1
  have far' := (trunc_bounds_of_nonpos (show b * (-2147483648 - 20079) ≤ 0 by linarith)).2
  have short' : (trunc (-a * x) + trunc (b * (x - 20079)) : ℚ) ≤ -901 := by
    exact_mod_cast (show trunc (-a * x) + trunc (b * (x - 20079)) ≤ -901 by omega)
  have across' : (-900 : ℚ) ≤
      trunc (-a * -2147483648) + trunc (b * (-2147483648 - 20079)) := by
    exact_mod_cast across
  -- what the two terms are at `x`, and what they are at the saturated fit
  have here : -a * x < b * (20079 - x) - 900 := by linarith
  have there : b * 2147503727 - 901 < a * 2147483648 := by linarith
  -- both on one scale, where `a` drops out
  have product := mul_le_mul_of_nonneg_right there.le (show 0 ≤ -x by linarith)
  have product' := mul_lt_mul_of_pos_right here (show (0 : ℚ) < 2147483648 by norm_num)
  have rest : b * 20079 * (2147483648 + x) ≤ 1 / 100 * (2147483648 + x) :=
    mul_le_mul_of_nonneg_right (by linarith) (by linarith)
  linarith

/-- A proportional gain that turns against the error and a derivative one that turns with it. -/
theorem reached_against_with {a b x : ℚ} (ha : 0 ≤ a) (hb : 0 ≤ b) (fitted : Fitted x)
    (apart : x = -2147483648 ∨ -2144844815 ≤ x)
    (least : trunc (-a * -2147483648) ≤ 1000)
    (greatest : trunc (-a * 20079) + trunc (b * (20079 - -2147483648)) ≤ 1000)
    (across : -900 ≤ trunc (-a * -2147483648) + trunc (b * (-2147483648 - 20079))) :
    Reached (trunc (-a * x) + trunc (b * (x - -2147483648))) ∧
      Reached (trunc (-a * x) + trunc (b * (x - 20079))) := by
  obtain ⟨low, high⟩ := fitted
  have a1001 : a * 2147483648 < 1001 := by
    have apart := (trunc_lt_iff (n := 1001) (by decide) (-a * -2147483648)).mp (by omega)
    push_cast at apart
    linarith
  have top : trunc (-a * 20079) = 0 := trunc_eq_zero (by linarith) (by linarith [ha])
  have b1001 : b * 2147503727 < 1001 := by
    have apart := (trunc_lt_iff (n := 1001) (by decide) (b * (20079 - -2147483648))).mp (by omega)
    push_cast at apart
    linarith
  have fall : -a * 20079 ≤ -a * x := mul_le_mul_of_nonpos_left high (by linarith)
  have rise : -a * x ≤ -a * -2147483648 := mul_le_mul_of_nonpos_left low (by linarith)
  have down := trunc_mono fall
  have up := trunc_mono rise
  have ahead : b * (x + 2147483648) ≤ b * 2147503727 :=
    mul_le_mul_of_nonneg_left (by linarith) hb
  have ahead' : 0 ≤ b * (x + 2147483648) := mul_nonneg hb (by linarith)
  have behind : 0 ≤ b * (20079 - x) := mul_nonneg hb (by linarith)
  constructor
  · have nonneg : 0 ≤ trunc (b * (x - -2147483648)) := trunc_nonneg (by linarith)
    have under := (trunc_bounds_of_nonneg (show 0 ≤ b * (x - -2147483648) by linarith)).1
    refine ⟨by omega, ?_⟩
    have sum : (trunc (-a * x) + trunc (b * (x - -2147483648)) : ℚ) < 1001 := by
      rcases le_total 0 x with pos | neg
      · have nonpos : -a * x ≤ 0 := mul_nonpos_of_nonpos_of_nonneg (by linarith) pos
        have small : (trunc (-a * x) : ℚ) ≤ 0 := by
          exact_mod_cast neg_nonneg.mp ((trunc_neg _).symm ▸ trunc_nonneg (neg_nonneg.mpr nonpos))
        linarith
      · have near := (trunc_bounds_of_nonneg
          (mul_nonneg_of_nonpos_of_nonpos (show -a ≤ 0 by linarith) neg)).1
        have parts := weighted_lt (y := -x) a1001 (show b * 2147483648 < 1001 by linarith)
          (by linarith) (by linarith)
        linarith
    have whole : trunc (-a * x) + trunc (b * (x - -2147483648)) < 1001 := by exact_mod_cast sum
    omega
  · have nonpos : trunc (b * (x - 20079)) < 1 :=
      (trunc_lt_iff (by decide) _).mpr (by push_cast; linarith)
    refine ⟨?_, by omega⟩
    rcases apart with rfl | apart
    · exact across
    rcases le_total 0 x with pos | neg
    · have small : b * 20079 < 1 := by linarith [hb]
      have none : trunc (b * (x - 20079)) = 0 := by
        have product := mul_nonneg hb pos
        exact trunc_eq_zero (by linarith) (by linarith)
      omega
    · exact against_with_ge ha hb (by linarith) apart neg across

theorem throughout_of_servoGains_exact {streepid : PID} (gains : ServoGains .exact streepid) :
    ServoGainsThroughout .exact streepid := by
  have arith := steerArithmetic_exact
  obtain ⟨least, greatest⟩ := forall_fitExtremes.mp gains
  rw [forall_fitExtremes] at least greatest
  have scaled : ∀ {g : ℚ}, 0 ≤ g → 0 ≤ g / 100 := fun nonneg => div_nonneg nonneg (by norm_num)
  rcases le_total 0 streepid.p with p | p
  · rcases le_total 0 streepid.d with d | d
    · exact throughout_of_servoGains arith (Or.inl ⟨p, d⟩) gains
    · intro n small
      have fitted := fitted_streeFit arith (small.trans (by decide))
      have d' := scaled (neg_nonneg.mpr d)
      rw [forall_fitExtremes]
      have self := least.1.1
      have across := greatest.1.1
      rw [steerBy_self arith, weigh_exact] at self
      simp only [steerBy, weigh_exact] at across ⊢
      have flip : streepid.d / 100 = -(-streepid.d / 100) := by ring
      rw [flip] at across ⊢
      exact reached_with_against (scaled p) d' fitted self across
  · rcases le_total 0 streepid.d with d | d
    · intro n small
      have fitted := fitted_streeFit arith (small.trans (by decide))
      have p' := scaled (neg_nonneg.mpr p)
      rw [forall_fitExtremes]
      have self := least.1.2
      have up := greatest.1.2
      have across := least.2.1
      rw [steerBy_self arith, weigh_exact] at self
      simp only [steerBy, weigh_exact] at up across ⊢
      have flip : streepid.p / 100 = -(-streepid.p / 100) := by ring
      rw [flip] at self up across ⊢
      refine reached_against_with p' (scaled d) fitted ?_ self up across
      show (streeFit .exact n : ℚ) = -2147483648 ∨ -2144844815 ≤ (streeFit .exact n : ℚ)
      exact_mod_cast streeFit_exact_cases n
    · exact throughout_of_servoGains arith (Or.inr ⟨p, d⟩) gains

/-- Already a tenth asks for more than two million of a saturated error. -/
theorem eq_zero_of_reached {g e : ℚ} (tenths : Tenths g) (large : 2147483648 ≤ |e|)
    (reached : Reached (trunc (g / 100 * e))) : g = 0 := by
  obtain ⟨m, tenfold⟩ := tenths
  obtain ⟨low, high⟩ := reached
  have low' := (lt_trunc_iff (n := -901) (by decide) (g / 100 * e)).mp (by omega)
  have high' := (trunc_lt_iff (n := 1001) (by decide) (g / 100 * e)).mp (by omega)
  push_cast at low' high'
  have size : |g| * |e| < 100100 := by
    rw [← abs_mul]
    exact abs_lt.mpr ⟨by linarith, by linarith⟩
  have small : |g| * 2147483648 < 100100 :=
    (mul_le_mul_of_nonneg_left large (abs_nonneg g)).trans_lt size
  have unit : |(m : ℚ)| < 1 := by
    rw [← tenfold, abs_mul]
    norm_num
    linarith
  have zero : m = 0 := Int.abs_lt_one_iff.mp (by exact_mod_cast unit)
  rw [zero, Int.cast_zero] at tenfold
  linarith

/-- Of the gains `Set_UI` produces, read as exact rationals, only both at zero keep the
range. -/
theorem servoGains_editorAt_iff (sector : Flash) (keys : List ℕ) :
    let streepid := (editorAt .exact sector keys).params.streepid
    ServoGains .exact streepid ↔ streepid.p = 0 ∧ streepid.d = 0 := by
  intro streepid
  have arith := steerArithmetic_exact
  obtain ⟨-, ⟨-, tenthsP, -, tenthsD⟩, -⟩ := tenths_editorAt isExact_exact sector keys
  constructor
  · intro gains
    obtain ⟨least, greatest⟩ := forall_fitExtremes.mp gains
    rw [forall_fitExtremes] at least greatest
    have alone := least.1
    rw [steerBy_self arith, weigh_exact] at alone
    have p := eq_zero_of_reached tenthsP (by norm_num) alone
    have across := greatest.1
    rw [steerBy, p, zero_weigh arith, zero_add, weigh_exact] at across
    exact ⟨p, eq_zero_of_reached tenthsD (by norm_num [abs_of_pos]) across⟩
  · rintro ⟨p, d⟩ x - last -
    rw [steerBy, p, d, zero_weigh arith, zero_weigh arith]
    decide

/-! ## The histories that keep it under all gains -/

/-- The history with the gains `streepid` instead of its own. -/
def withGains (streepid : PID) (inputs : ℕ → SteerInput) : ℕ → SteerInput :=
  fun t => { inputs t with streepid := streepid }

theorem measured_withGains {inputs : ℕ → SteerInput} (measured : ∀ t, (inputs t).Measured)
    (streepid : PID) (t : ℕ) : (withGains streepid inputs t).Measured :=
  ⟨(measured t).ad3, (measured t).ad4, (measured t).sumDiff⟩

/-- The latch does not look at the gains. -/
theorem stateAt_withGains (streepid : PID) (inputs : ℕ → SteerInput) (t : ℕ) :
    lossLatch.stateAt (withGains streepid inputs) t = lossLatch.stateAt inputs t := by
  induction t with
  | zero => rfl
  | succ t ih =>
      rw [lossLatch.stateAt_succ, lossLatch.stateAt_succ, ih]
      rfl

/-- A sector with `Turn__P` at a hundred thousand. -/
def steepSector : Flash := fun a => if a = sectorNum * flashSectorSize + 12 then 1000000#32 else 0

/-- A proportional gain of a hundred thousand asks for more than the servo can do whatever the
error is. -/
theorem not_reached_steep {fm : FloatModel} (arith : SteerArithmetic fm) {x : ℚ}
    (far : x ≤ -40 ∨ 40 ≤ x) (gain : streeGain fm 100000 = 1000) :
    ¬ Reached (weigh fm 100000 x) := by
  have kept := fun k : ℤ => arith.rounds.rnd_intCast k
  have inner := kept 40 (by decide)
  have inner' := kept (-40) (by decide)
  have outer := kept 40000 (by decide)
  have outer' := kept (-40000) (by decide)
  push_cast at inner inner' outer outer'
  have up : trunc 40000 = 40000 := by decide +kernel
  have down : trunc (-40000) = -40000 := by decide +kernel
  unfold Reached weigh
  rw [gain]
  rcases far with low | high
  · have error := arith.rounds.rnd_le inner' low
    have term := trunc_mono (arith.rounds.rnd_le outer' (show 1000 * fm.rnd x ≤ -40000 by linarith))
    rw [down] at term
    omega
  · have error := arith.rounds.le_rnd inner high
    have term := trunc_mono (arith.rounds.le_rnd outer (show 40000 ≤ 1000 * fm.rnd x by linarith))
    rw [up] at term
    omega

/-- A history keeps the range under all gains only where it never steers. -/
theorem histories_iff {fm : FloatModel} (target : fm = .exact ∨ fm = .cortexM4)
    (arith : SteerArithmetic fm) {inputs : ℕ → SteerInput}
    (measured : ∀ t, (inputs t).Measured) :
    (∀ (sector : Flash) (keys : List ℕ) (t : ℕ),
        ServoInRange fm (withGains (editorAt fm sector keys).params.streepid inputs) t) ↔
      ∀ t, lossLatch.stateAt inputs (t + 1) ≠ none := by
  constructor
  · intro range t seen
    have steep : (editorAt fm steepSector []).params.streepid = ⟨100000, 0, 0⟩ ∧
        streeGain fm 100000 = 1000 := by
      rcases target with rfl | rfl
      · decide +kernel
      · decide +kernel
    have tick := range steepSector [] t
    rw [steep.1, servoInRange_iff fm (measured_withGains measured _)] at tick
    have demand := tick.resolve_left fun lost => lost ((stateAt_withGains _ inputs _).trans seen)
    obtain ⟨⟨low3, high3⟩, ⟨low4, high4⟩, -⟩ := measured t
    have small : |(inputs t).ad3 - (inputs t).ad4| ≤ 2 ^ 24 := abs_le.mpr ⟨by omega, by omega⟩
    rw [turnDemand_eq arith] at demand
    simp only [withGains, zero_weigh arith] at demand
    rw [deflection_alone_iff] at demand
    exact not_reached_steep arith (rnd_streeFit_far arith small) steep.2 demand
  · intro lost sector keys t
    rw [servoInRange_iff fm (measured_withGains measured _)]
    refine Or.inl ?_
    rw [stateAt_withGains]
    exact lost t

/-- **When the servo command keeps the range named at the call.**

Gains keep it over all histories of 12-bit readings exactly if the servo can follow from
either extreme of the fit to either, where they are not of opposite signs or the arithmetic
is exact; and always exactly if it can follow from either extreme to every fit.  A history
keeps it under all gains `Set_UI` can produce exactly if the line is lost in every tick.  In
between, a tick keeps it exactly when the line is lost or what its gains ask for behind the
last fit is a deflection.  Of the gains `Set_UI` produces, read as exact rationals, only both
at zero keep it over all histories. -/
theorem servo_in_range_iff {fm : FloatModel} (target : fm = .exact ∨ fm = .cortexM4) :
    (∀ streepid : PID,
      (0 ≤ streepid.p ∧ 0 ≤ streepid.d) ∨ (streepid.p ≤ 0 ∧ streepid.d ≤ 0) ∨ fm = .exact →
        (KeepsServoRange fm streepid ↔ ServoGains fm streepid)) ∧
    (∀ streepid : PID, KeepsServoRange fm streepid ↔ ServoGainsThroughout fm streepid) ∧
    (fm = .exact → ∀ (sector : Flash) (keys : List ℕ),
      let streepid := (editorAt fm sector keys).params.streepid
      KeepsServoRange fm streepid ↔ streepid.p = 0 ∧ streepid.d = 0) ∧
    ∀ inputs : ℕ → SteerInput, (∀ t, (inputs t).Measured) →
      ((∀ (sector : Flash) (keys : List ℕ) (t : ℕ),
          ServoInRange fm (withGains (editorAt fm sector keys).params.streepid inputs) t) ↔
        ∀ t, lossLatch.stateAt inputs (t + 1) ≠ none) ∧
      ∀ t, ServoInRange fm inputs t ↔ ServoModerate fm inputs t := by
  have arith : SteerArithmetic fm := by
    rcases target with rfl | rfl
    · exact steerArithmetic_exact
    · exact steerArithmetic_cortexM4
  have throughout : ∀ streepid, KeepsServoRange fm streepid ↔ ServoGainsThroughout fm streepid :=
    fun _ => ⟨throughout_of_keeps arith, keeps_of_throughout arith⟩
  have extremes : ∀ streepid : PID,
      (0 ≤ streepid.p ∧ 0 ≤ streepid.d) ∨ (streepid.p ≤ 0 ∧ streepid.d ≤ 0) ∨ fm = .exact →
        (KeepsServoRange fm streepid ↔ ServoGains fm streepid) := by
    intro streepid signs
    rw [throughout]
    refine ⟨servoGains_of_throughout arith, fun gains => ?_⟩
    rcases signs with same | same | rfl
    · exact throughout_of_servoGains arith (Or.inl same) gains
    · exact throughout_of_servoGains arith (Or.inr same) gains
    · exact throughout_of_servoGains_exact gains
  refine ⟨extremes, throughout, ?_, fun inputs measured =>
    ⟨histories_iff target arith measured, servoInRange_iff fm measured⟩⟩
  rintro rfl sector keys
  exact (extremes _ (Or.inr (Or.inr rfl))).trans (servoGains_editorAt_iff sector keys)

/-- On the target, `Turn__P` stepped up from zero and down again: what is left of it is no
zero, and keeps the range over all histories. -/
theorem servo_in_range_stepped_back :
    let streepid := (editorAt .cortexM4 (fun _ => 0) [2, 2, 2, 3, 1, 2]).params.streepid
    streepid.p ≠ 0 ∧ KeepsServoRange .cortexM4 streepid := by
  intro streepid
  have nonneg : 0 ≤ streepid.p ∧ 0 ≤ streepid.d := by decide +kernel
  have gains : ServoGains .cortexM4 streepid := by decide +kernel
  exact ⟨by decide +kernel,
    ((servo_in_range_iff (Or.inr rfl)).1 streepid (Or.inl nonneg)).mpr gains⟩

/-- The readings of a history that stays at one snapshot. -/
def steady (streepid : PID) (ad3 ad4 : ℤ) : ℕ → SteerInput :=
  fun _ => ⟨streepid, ad3, ad4, (ad3 - ad4 : ℤ)⟩

/-- From an all-zero sector, `Turn__P` stepped up twice, and coils that read 1060 and
1000: the first tick passes a negative value on, which wraps in the `uint32_t` and
again in the product. -/
theorem not_servo_in_range :
    let g := (editorAt .cortexM4 (fun _ => 0) [2, 2, 2, 3, 1, 1]).params.streepid
    let inputs := steady g 1060 1000
    (steerAt .cortexM4 inputs 1).spe = 0 ∧ (steerAt .cortexM4 inputs 1).resultturn = -532 ∧
      (steerCalls .cortexM4 inputs 0).changeDuty = 2 ^ 32 - 532 ∧
      ¬ ServoInRange .cortexM4 inputs 0 := by
  intro g inputs
  have value : (steerAt .cortexM4 inputs 1).resultturn = -532 := by decide +kernel
  refine ⟨by decide +kernel, value, by decide +kernel, ?_⟩
  rintro ⟨⟨low, -⟩, -⟩
  rw [Nat.zero_add, value] at low
  exact absurd low (by decide)

end CannonCar
