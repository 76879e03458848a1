import CannonCar.Ctrl.Speed

/-!
# What the terms of the speed controller amount to

Two accounts of `speedPID` in exact rationals.

The first compares the three clamped terms with the terms clamped in exact arithmetic.
A product is narrowed to `int16_t` before it is clamped, so the comparison turns on
the low 16 bits of a product that does not fit: the clamp undoes the narrowing just
where these are on the product's own side and at least 190 away from zero
(`KeepsSide`).  The second difference of the readings is narrowed once more, before the
product (`DKeepsSide`).

The second takes the increment before anything is narrowed or clamped and compares it
with an incremental PID law in the error.  The term of the second difference is added
with the sign of the measurement, the other two oppose it.

The statics are the last two readings (`statics_speedAt`), zeros before there are any.

## What is load-bearing

The two accounts have different domains.  The first is about the calls there can be
(`SpeedCall.Admissible`): readings up to the counter's 0x7FFF, settings up to 999, gains in
tenths from 0 to 99.9.  These bounds decide which products there are and how far the second
difference can leave the 16 bits.  The second is an identity of rationals and holds for all
gains and readings, with the setting constant: the errors of a call and the two before it
are taken against one setting.

Neither is about rounding.  In `FloatModel.exact` a product is truncated as it is, so that what
differs from exact arithmetic is the narrowing alone.
-/

namespace CannonCar

open MachineInt Trajectory FloatModel

/-! ## The readings behind the statics -/

/-- The reading `j` calls before the `k`-th, zero before the first. -/
def lastReading (E : ℕ → ℤ) (k j : ℕ) : ℤ := if j ≤ k then E (k - j) else 0

@[simp] theorem lastReading_zero (E : ℕ → ℤ) (k : ℕ) : lastReading E k 0 = E k := rfl

theorem lastReading_succ (E : ℕ → ℤ) (k j : ℕ) :
    lastReading E (k + 1) (j + 1) = lastReading E k j := by
  rw [lastReading, lastReading, Nat.add_sub_add_right]
  exact if_congr Nat.succ_le_succ_iff rfl rfl

/-- The readings of a sequence of calls, as `LastSpeedCut0` takes them. -/
def takenReading (calls : ℕ → SpeedCall) (k : ℕ) : ℤ := toSigned 16 (calls k).nowValue

theorem statics_speedAt (fm : FloatModel) (calls : ℕ → SpeedCall) (k : ℕ) :
    (speedAt fm calls k).lastSpeedCut1 = lastReading (takenReading calls) k 1 ∧
      (speedAt fm calls k).lastSpeedCut2 = lastReading (takenReading calls) k 2 := by
  induction k with
  | zero => exact ⟨rfl, rfl⟩
  | succ k ih =>
      refine ⟨?_, ?_⟩
      · rw [lastReading_succ]
        rfl
      · rw [lastReading_succ, ← ih.1]
        rfl

/-! ## Narrowing before clamping -/

/-- The low 16 bits, read as signed, are at least 190. -/
def HighResidue (x : ℤ) : Prop := 190 ≤ x % 65536 ∧ x % 65536 ≤ 32767

/-- The low 16 bits, read as signed, are at most -190. -/
def LowResidue (x : ℤ) : Prop := 32768 ≤ x % 65536 ∧ x % 65536 ≤ 65346

/-- The clamp makes up for the narrowing of `x` to `int16_t`. -/
def KeepsSide (x : ℤ) : Prop :=
  FitsSigned 16 x ∨ 32767 < x ∧ HighResidue x ∨ x < -32768 ∧ LowResidue x

/-- The clamp makes up for the narrowing of the second difference `x` and of its product
with the gain `d`. -/
def DKeepsSide (d : ℚ) (x : ℤ) : Prop :=
  d = 0 ∨ FitsSigned 16 x ∧ KeepsSide (trunc (d * x)) ∨
    32767 < x ∧ HighResidue (trunc (d * (x - 65536))) ∨
    x < -32768 ∧ LowResidue (trunc (d * (x + 65536)))

/-- `x` kept within 190 of zero. -/
def clamp190 (x : ℤ) : ℤ := max (-190) (min x 190)

theorem clampTerm_eq (x : ℤ) : clampTerm 190 (-190) x = clamp190 x := by
  unfold clampTerm clamp190
  split_ifs <;> omega

theorem clamp190_toSigned_eq_high {x : ℤ} : clamp190 (toSigned 16 x) = 190 ↔ HighResidue x := by
  unfold clamp190 toSigned HighResidue
  omega

theorem clamp190_toSigned_eq_low {x : ℤ} : clamp190 (toSigned 16 x) = -190 ↔ LowResidue x := by
  unfold clamp190 toSigned LowResidue
  omega

theorem clamp190_of_ge {x : ℤ} (high : 190 ≤ x) : clamp190 x = 190 := by
  unfold clamp190
  omega

theorem clamp190_of_le {x : ℤ} (low : x ≤ -190) : clamp190 x = -190 := by
  unfold clamp190
  omega

theorem clamp190_toSigned_iff (x : ℤ) :
    clamp190 (toSigned 16 x) = clamp190 x ↔ KeepsSide x := by
  by_cases fits : FitsSigned 16 x
  · exact ⟨fun _ => Or.inl fits, fun _ => by rw [toSigned_eq_self fits]⟩
  · rcases lt_or_ge 32767 x with above | le
    · rw [clamp190_of_ge (x := x) (by omega), clamp190_toSigned_eq_high]
      exact ⟨fun high => Or.inr (Or.inl ⟨above, high⟩), by
        rintro (fits' | ⟨-, high⟩ | ⟨under, -⟩)
        · exact absurd fits' fits
        · exact high
        · omega⟩
    · have under : x < -32768 := by
        by_contra ge
        exact fits ⟨not_lt.mp ge, Int.lt_add_one_iff.mpr le⟩
      rw [clamp190_of_le (x := x) (by omega), clamp190_toSigned_eq_low]
      exact ⟨fun low => Or.inr (Or.inr ⟨under, low⟩), by
        rintro (fits' | ⟨above, -⟩ | ⟨-, low⟩)
        · exact absurd fits' fits
        · omega
        · exact low⟩

/-! ## Products -/

/-- A gain the menu can set: a multiple of 0.1 from 0 to 99.9. -/
def MenuGain (g : ℚ) : Prop := ∃ n : ℕ, n ≤ 999 ∧ g = n / 10

theorem MenuGain.nonneg {g : ℚ} (gain : MenuGain g) : 0 ≤ g := by
  obtain ⟨n, -, rfl⟩ := gain
  positivity

theorem MenuGain.lt {g : ℚ} (gain : MenuGain g) : g < 100 := by
  obtain ⟨n, bound, rfl⟩ := gain
  have real : (n : ℚ) ≤ 999 := by exact_mod_cast bound
  linarith

theorem MenuGain.tenth_le {g : ℚ} (gain : MenuGain g) (nonzero : g ≠ 0) : 1 / 10 ≤ g := by
  obtain ⟨n, -, rfl⟩ := gain
  have positive : 1 ≤ n := by
    apply Nat.one_le_iff_ne_zero.mpr
    rintro rfl
    exact nonzero (by norm_num)
  have real : (1 : ℚ) ≤ n := by exact_mod_cast positive
  linarith

/-- The product of a gain and a 16-bit difference is far inside 32 bits. -/
theorem trunc_mul_mem {g : ℚ} (gain : MenuGain g) {w : ℤ} (fits : FitsSigned 16 w) :
    -3276801 < trunc (g * w) ∧ trunc (g * w) < 3276801 := by
  have low : (-32768 : ℚ) ≤ w := by exact_mod_cast fits.1
  have high : (w : ℚ) ≤ 32768 := by exact_mod_cast fits.2.le
  have nonneg := gain.nonneg
  have small := gain.lt
  constructor
  · rw [lt_trunc_iff (by norm_num)]
    push_cast
    nlinarith
  · rw [trunc_lt_iff (by norm_num)]
    push_cast
    nlinarith

/-- The conversion of such a product: truncation, then the low 16 bits. -/
theorem toI16_mul {g : ℚ} (gain : MenuGain g) {w : ℤ} (fits : FitsSigned 16 w) :
    exact.toI16 (exact.rnd (g * w)) = toSigned 16 (trunc (g * w)) := by
  obtain ⟨low, high⟩ := trunc_mul_mem gain fits
  show exact.toI16 (g * w) = _
  rw [toI16]
  split_ifs with inside
  · exact (toSigned_eq_self inside).symm
  · have saturated : exact.outI16 (g * w) = trunc (g * w) := by
      show max _ (min _ _) = _
      norm_num
      omega
    rw [saturated]

theorem clamp190_mul_iff {g : ℚ} (gain : MenuGain g) {w : ℤ} (fits : FitsSigned 16 w) :
    clamp190 (exact.toI16 (exact.rnd (g * w))) = clamp190 (trunc (g * w)) ↔
      KeepsSide (trunc (g * w)) := by
  rw [toI16_mul gain fits, clamp190_toSigned_iff]

/-- A difference too large for 16 bits is beyond the clamp with every gain but zero. -/
theorem clamp190_mul_large {d : ℚ} (gain : MenuGain d) (nonzero : d ≠ 0) {x : ℤ} :
    (32767 < x → clamp190 (trunc (d * x)) = 190) ∧
      (x < -32768 → clamp190 (trunc (d * x)) = -190) := by
  have tenth := gain.tenth_le nonzero
  constructor
  · intro above
    have real : (32768 : ℚ) ≤ x := by exact_mod_cast above
    apply clamp190_of_ge
    have large : ¬ trunc (d * x) < 190 := by
      rw [trunc_lt_iff (by norm_num)]
      push_cast
      nlinarith
    exact not_lt.mp large
  · intro under
    have real : (x : ℚ) ≤ -32769 := by exact_mod_cast Int.le_sub_one_of_lt under
    apply clamp190_of_le
    have large : ¬ -190 < trunc (d * x) := by
      rw [lt_trunc_iff (by norm_num)]
      push_cast
      nlinarith
    exact not_lt.mp large

/-- The term of the second difference, which is narrowed twice. -/
theorem clamp190_secondDifference_iff {d : ℚ} (gain : MenuGain d) {x : ℤ}
    (low : -65536 < x) (high : x < 65536) :
    clamp190 (exact.toI16 (exact.rnd (d * (toSigned 16 x : ℤ)))) = clamp190 (trunc (d * x)) ↔
      DKeepsSide d x := by
  unfold DKeepsSide
  have narrow := fits_toSigned 16 x
  by_cases zero : d = 0
  · rw [toI16_mul gain narrow, zero, zero_mul, zero_mul]
    exact ⟨fun _ => Or.inl rfl, fun _ => by decide +kernel⟩
  by_cases fits : FitsSigned 16 x
  · have inside := fits
    rw [toSigned_eq_self fits, clamp190_mul_iff gain fits]
    unfold FitsSigned at inside
    norm_num at inside
    have notAbove : ¬ 32767 < x := by omega
    have notUnder : ¬ x < -32768 := by omega
    simp only [zero, fits, notAbove, notUnder, true_and, false_and, false_or, or_false]
  · obtain ⟨large, small⟩ := clamp190_mul_large (x := x) gain zero
    rw [toI16_mul gain narrow]
    simp only [zero, fits, false_and, false_or]
    rcases lt_or_ge 32767 x with above | le
    · have wrapped : toSigned 16 x = x - 65536 := by
        unfold toSigned
        norm_num
        omega
      have notUnder : ¬ x < -32768 := by omega
      rw [large above, clamp190_toSigned_eq_high, wrapped]
      push_cast
      simp only [above, notUnder, true_and, false_and, or_false]
    · have under : x < -32768 := by
        by_contra ge
        exact fits ⟨not_lt.mp ge, Int.lt_add_one_iff.mpr le⟩
      have wrapped : toSigned 16 x = x + 65536 := by
        unfold toSigned
        norm_num
        omega
      rw [small under, clamp190_toSigned_eq_low, wrapped]
      push_cast
      simp only [under, not_lt.mpr le, true_and, false_and, false_or]

/-! ## The clamped terms -/

/-- What the encoder, the menu and the parameter sector give a call. -/
structure SpeedCall.Admissible (c : SpeedCall) : Prop where
  reading : 0 ≤ c.nowValue ∧ c.nowValue ≤ 0x7FFF
  speed : 0 ≤ c.speed ∧ c.speed ≤ 999
  p : MenuGain c.speedpid.p
  i : MenuGain c.speedpid.i
  d : MenuGain c.speedpid.d

/-- The terms clamped in exact arithmetic, of the last three readings. -/
def exactTerms (speedpid : PID) (speed E0 E1 E2 : ℤ) : SpeedTerms where
  speedPWMKP := clamp190 (trunc (speedpid.p * (speed - E0)))
  speedPWMKI := clamp190 (trunc (speedpid.i * (E0 - E1)))
  speedPWMKD := clamp190 (trunc (speedpid.d * (E0 - 2 * E1 + E2)))

/-- No product loses its side in the narrowing. -/
structure TermsKeepSide (speedpid : PID) (speed E0 E1 E2 : ℤ) : Prop where
  p : KeepsSide (trunc (speedpid.p * (speed - E0)))
  i : KeepsSide (trunc (speedpid.i * (E0 - E1)))
  d : DKeepsSide speedpid.d (E0 - 2 * E1 + E2)

/-- One call, given the readings behind its statics. -/
theorem speedTerms_eq_iff {speedpid : PID} {speed E0 E1 E2 : ℤ} {st : SpeedState}
    (legal : SpeedCall.Admissible ⟨speedpid, speed, E0⟩) (mem1 : 0 ≤ E1 ∧ E1 ≤ 0x7FFF)
    (mem2 : 0 ≤ E2 ∧ E2 ≤ 0x7FFF) (last1 : st.lastSpeedCut1 = E1) (last2 : st.lastSpeedCut2 = E2) :
    speedTerms exact speedpid speed E0 st = exactTerms speedpid speed E0 E1 E2 ↔
      TermsKeepSide speedpid speed E0 E1 E2 := by
  obtain ⟨mem0, setting, p, i, d⟩ := legal
  dsimp only at mem0 setting p i d
  have now : toSigned 16 E0 = E0 :=
    toSigned_eq_self ⟨by norm_num; omega, by norm_num; omega⟩
  have dSpeed : toSigned 16 speed = speed :=
    toSigned_eq_self ⟨by norm_num; omega, by norm_num; omega⟩
  have difference : FitsSigned 16 (speed - E0) := ⟨by norm_num; omega, by norm_num; omega⟩
  have first : FitsSigned 16 (E0 - E1) := ⟨by norm_num; omega, by norm_num; omega⟩
  have second : E2 + E0 - 2 * E1 = E0 - 2 * E1 + E2 := by ring
  have terms : speedTerms exact speedpid speed E0 st =
      ⟨clamp190 (exact.toI16 (exact.rnd (speedpid.p * (speed - E0 : ℤ)))),
        clamp190 (exact.toI16 (exact.rnd (speedpid.i * (E0 - E1 : ℤ)))),
        clamp190 (exact.toI16 (exact.rnd
          (speedpid.d * (toSigned 16 (E0 - 2 * E1 + E2) : ℤ))))⟩ := by
    simp only [← clampTerm_eq]
    rw [speedTerms, last1, last2, now, dSpeed, toSigned_eq_self difference,
      toSigned_eq_self first, second]
    rfl
  have exactly : exactTerms speedpid speed E0 E1 E2 =
      ⟨clamp190 (trunc (speedpid.p * (speed - E0 : ℤ))),
        clamp190 (trunc (speedpid.i * (E0 - E1 : ℤ))),
        clamp190 (trunc (speedpid.d * (E0 - 2 * E1 + E2 : ℤ)))⟩ := by
    push_cast
    rfl
  rw [terms, exactly, SpeedTerms.mk.injEq, clamp190_mul_iff p difference, clamp190_mul_iff i first,
    clamp190_secondDifference_iff d (by omega) (by omega)]
  push_cast
  exact ⟨fun h => ⟨h.1, h.2.1, h.2.2⟩, fun h => ⟨h.1, h.2, h.3⟩⟩

/-- The readings of a sequence of calls. -/
def readings (calls : ℕ → SpeedCall) (k : ℕ) : ℤ := (calls k).nowValue

theorem lastReading_mem {calls : ℕ → SpeedCall} (legal : ∀ k, (calls k).Admissible) (k j : ℕ) :
    0 ≤ lastReading (readings calls) k j ∧ lastReading (readings calls) k j ≤ 0x7FFF := by
  unfold lastReading
  split_ifs
  · exact (legal _).reading
  · exact ⟨le_rfl, by decide⟩

theorem takenReading_eq {calls : ℕ → SpeedCall} (legal : ∀ k, (calls k).Admissible) :
    takenReading calls = readings calls := by
  funext k
  obtain ⟨low, high⟩ := (legal k).reading
  exact toSigned_eq_self ⟨le_trans (by decide) low, lt_of_le_of_lt high (by decide)⟩

/-- **The terms saturate to the right side exactly where the low halves do.**  Along
every sequence of calls with the readings, settings and gains there can be, in exact
rationals, the three clamped terms of a call are those of exact arithmetic exactly when
no product loses its side in the narrowing. -/
theorem speedTerms_eq_exactTerms_iff (calls : ℕ → SpeedCall) (legal : ∀ k, (calls k).Admissible)
    (k : ℕ) :
    let c := calls k
    let E := lastReading (readings calls) k
    speedTerms exact c.speedpid c.speed c.nowValue (speedAt exact calls k) =
        exactTerms c.speedpid c.speed (E 0) (E 1) (E 2) ↔
      TermsKeepSide c.speedpid c.speed (E 0) (E 1) (E 2) := by
  obtain ⟨last1, last2⟩ := statics_speedAt exact calls k
  rw [takenReading_eq legal] at last1 last2
  exact speedTerms_eq_iff (legal k) (lastReading_mem legal k 1) (lastReading_mem legal k 2)
    last1 last2

/-- The largest gain against a standing reading of 400: the product -39960 comes out as
a push of 190 forwards. -/
def overrun : SpeedCall := ⟨⟨999 / 10, 0, 0⟩, 0, 400⟩

theorem overrun_admissible : overrun.Admissible where
  reading := by decide
  speed := by decide
  p := ⟨999, le_rfl, by norm_num [overrun]⟩
  i := ⟨0, by decide, by norm_num [overrun]⟩
  d := ⟨0, by decide, by norm_num [overrun]⟩

theorem speedTerms_ne_exactTerms :
    ¬ ∀ (calls : ℕ → SpeedCall), (∀ k, (calls k).Admissible) → ∀ k,
      speedTerms exact (calls k).speedpid (calls k).speed (calls k).nowValue
          (speedAt exact calls k) =
        exactTerms (calls k).speedpid (calls k).speed (lastReading (readings calls) k 0)
          (lastReading (readings calls) k 1) (lastReading (readings calls) k 2) := by
  intro always
  have first := always (fun _ => overrun) (fun _ => overrun_admissible) 0
  have push := congrArg SpeedTerms.speedPWMKP first
  revert push
  decide +kernel

/-- The same call, where the side is lost. -/
theorem speedTerms_eq_exactTerms_iff_overrun :
    speedTerms exact overrun.speedpid overrun.speed overrun.nowValue SpeedState.init =
        exactTerms overrun.speedpid overrun.speed 400 0 0 ↔
      TermsKeepSide overrun.speedpid overrun.speed 400 0 0 :=
  speedTerms_eq_exactTerms_iff (fun _ => overrun) (fun _ => overrun_admissible) 0

/-! ## The increment as a control law -/

/-- The products of a call before they are narrowed, truncated or clamped, of differences
that are not narrowed either. -/
structure RawTerms where
  speedPWMKP : ℚ
  speedPWMKI : ℚ
  speedPWMKD : ℚ

def rawTerms (speedpid : PID) (speed nowValue : ℤ) (st : SpeedState) : RawTerms :=
  let lastSpeedCut0 := toSigned 16 nowValue
  let dSpeed := toSigned 16 speed
  { speedPWMKP := speedpid.p * (dSpeed - lastSpeedCut0 : ℤ)
    speedPWMKI := speedpid.i * (lastSpeedCut0 - st.lastSpeedCut1 : ℤ)
    speedPWMKD := speedpid.d * (st.lastSpeedCut2 + lastSpeedCut0 - 2 * st.lastSpeedCut1 : ℤ) }

/-- `SpeedPWMKD-SpeedPWMKI+SpeedPWMKP`, of the raw terms. -/
def RawTerms.sum (t : RawTerms) : ℚ := t.speedPWMKD - t.speedPWMKI + t.speedPWMKP

/-- The increment of a call before anything is narrowed, truncated or clamped. -/
def rawIncrement (speedpid : PID) (speed nowValue : ℤ) (st : SpeedState) : ℚ :=
  (rawTerms speedpid speed nowValue st).sum

/-- An incremental PID law in the errors `e 0`, `e 1`, `e 2` of a call and the two before
it. -/
def pidLaw (speedpid : PID) (e : ℕ → ℚ) : ℚ :=
  speedpid.p * e 0 + speedpid.i * (e 0 - e 1) + speedpid.d * (e 0 - 2 * e 1 + e 2)

/-- The error `j` calls before the `k`-th. -/
def speedError (calls : ℕ → SpeedCall) (speed : ℤ) (k j : ℕ) : ℚ :=
  (toSigned 16 speed - lastReading (takenReading calls) k j : ℤ)

variable (fm : FloatModel)

/-- The raw increment is the law with the last term taken off twice over. -/
theorem rawIncrement_eq (calls : ℕ → SpeedCall) (k : ℕ) :
    let c := calls k
    let e := speedError calls c.speed k
    rawIncrement c.speedpid c.speed c.nowValue (speedAt fm calls k) =
      pidLaw c.speedpid e - 2 * (c.speedpid.d * (e 0 - 2 * e 1 + e 2)) := by
  intro c e
  obtain ⟨last1, last2⟩ := statics_speedAt fm calls k
  have now : toSigned 16 c.nowValue = lastReading (takenReading calls) k 0 := rfl
  simp only [rawIncrement, RawTerms.sum, rawTerms, pidLaw, e, speedError, last1, last2, now]
  push_cast
  ring

/-- **The increment is the PID law exactly where the third term vanishes.**  With a
constant setting, whatever the gains and the readings, a call's increment before
narrowing is the law in the error exactly when its gain `d` or the second difference of
the error is zero. -/
theorem rawIncrement_eq_pidLaw_iff (gains : ℕ → PID) (speed : ℤ) (E : ℕ → ℤ) (k : ℕ) :
    let calls := fun k => SpeedCall.mk (gains k) speed (E k)
    let e := speedError calls speed k
    rawIncrement (gains k) speed (E k) (speedAt fm calls k) = pidLaw (gains k) e ↔
      (gains k).d = 0 ∨ e 0 - 2 * e 1 + e 2 = 0 := by
  intro calls e
  have increment := rawIncrement_eq fm calls k
  simp only [calls] at increment
  rw [increment, sub_eq_self, mul_eq_zero_iff_left two_ne_zero, mul_eq_zero]

/-- A reading of 1 after none, with the gain 1 on the second difference: the increment is
1, the law's -1. -/
theorem rawIncrement_ne_pidLaw :
    ¬ ∀ (gains : ℕ → PID) (speed : ℤ) (E : ℕ → ℤ) (k : ℕ),
      (∀ k, 0 ≤ (gains k).p ∧ 0 ≤ (gains k).i ∧ 0 ≤ (gains k).d) →
      rawIncrement (gains k) speed (E k)
          (speedAt exact (fun k => ⟨gains k, speed, E k⟩) k) =
        pidLaw (gains k) (speedError (fun k => ⟨gains k, speed, E k⟩) speed k) := by
  intro always
  have third := always (fun _ => ⟨0, 0, 1⟩) 0 (fun k => if k = 2 then 1 else 0) 2
    (fun _ => ⟨le_rfl, le_rfl, zero_le_one⟩)
  revert third
  decide +kernel

end CannonCar
