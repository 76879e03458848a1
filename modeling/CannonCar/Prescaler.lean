import CannonCar.Ftm

/-!
# The prescaler of a PWM module

`FTM_PWM_QuickInit` looks for the prescaler in three stages: a quotient by 65535 that it
corrects upwards, the power of two nearest to the result, and one step up where that power
is too small.  Taken together they find the least prescaler with which the period count
fits the 16-bit `MOD` register.

The correction divides by the quotient it corrects, and where the period fits without a
prescaler that quotient is zero.  `quickInitTraced` is the same computation with its
divisors written down.

## What is load-bearing

**Nothing wraps.**  Clock and frequency are `uint32_t` and are only divided, so naturals carry
them.  A quotient of quotients is a quotient by the product (`periodCount_eq`), which is what
makes the three stages comparable.

**Division by zero.**  C leaves it undefined, and the naturals give 0, with which the first
correction is not made.  The results about the prescaler follow the code so, and
`quickInit_divides` says for which requests no divisor is zero.  The power of two is found by
a search over all quotients there can be, 128 at most, and its properties are decided.
-/

namespace CannonCar

open MachineInt

/-- The period count in bus clocks shifted right by `ps`. -/
def periodCount (clock req ps : ℕ) : ℕ := clock / 2 ^ ps / req

/-- `pres`, after its correction. -/
def quickInitPres (clock req : ℕ) : ℕ :=
  let pres := clock / req / 0xFFFF
  if clock / req / pres > 0xFFFF then pres + 1 else pres

/-- The exponent found for `pres`. -/
def presExponent (pres : ℕ) : ℕ :=
  let ps := nearestPower pres
  let ps := if pres > 2 ^ ps then ps + 1 else ps
  if ps > 7 then 7 else ps

theorem quickInitPs_eq (clock req : ℕ) :
    quickInitPs clock req = presExponent (quickInitPres clock req) := rfl

/-! ## The three stages -/

/-- `pres` is the least divisor that makes the ratio fit 16 bits. -/
theorem ratio_fits_iff {clock req k : ℕ} (ratio : clock / req ≤ 128 * 65535) (pos : 0 < k) :
    clock / req / k ≤ 0xFFFF ↔ quickInitPres clock req ≤ k := by
  unfold quickInitPres
  generalize clock / req = r at ratio
  have low : 65535 * (r / 65535) ≤ r := Nat.mul_div_le r 65535
  have high : r < 65535 * (r / 65535 + 1) := Nat.lt_mul_div_succ r (by decide)
  have small : r / 65535 ≤ 128 := by omega
  generalize r / 65535 = pres at low high small
  have fits : r / k ≤ 0xFFFF ↔ r < 65536 * k := by
    rw [← Nat.lt_succ_iff, Nat.div_lt_iff_lt_mul pos]
  have corrects : r / pres > 0xFFFF ↔ 0 < pres ∧ 65536 * pres ≤ r := by
    rcases Nat.eq_zero_or_pos pres with rfl | some_
    · rw [Nat.div_zero]
      omega
    · rw [gt_iff_lt, ← Nat.succ_le_iff, Nat.le_div_iff_mul_le some_]
      exact (and_iff_right some_).symm
  rw [fits]
  simp only [corrects]
  split_ifs with up
  · omega
  · omega

/-- The exponent found is that of the least power of two that is not below `pres`. -/
theorem presExponent_least :
    ∀ pres ≤ 128, presExponent pres ≤ 7 ∧ pres ≤ 2 ^ presExponent pres ∧
      ∀ ps < presExponent pres, 2 ^ ps < pres := by
  decide +kernel

theorem periodCount_eq (clock req ps : ℕ) : periodCount clock req ps = clock / req / 2 ^ ps := by
  rw [periodCount, Nat.div_div_eq_div_mul, Nat.mul_comm, ← Nat.div_div_eq_div_mul]

/-- Ratios that some prescaler brings to 16 bits lead to a `pres` of 128 at most. -/
theorem quickInitPres_le {clock req : ℕ} (ratio : clock / req ≤ 128 * 65535) :
    quickInitPres clock req ≤ 128 :=
  (ratio_fits_iff ratio (by decide)).mp (by omega)

/-- The exponent is the least for which the period count fits. -/
theorem periodCount_fits_iff {clock req : ℕ} (ratio : clock / req ≤ 128 * 65535) :
    periodCount clock req (quickInitPs clock req) ≤ 0xFFFF ∧
      ∀ ps < quickInitPs clock req, 0xFFFF < periodCount clock req ps := by
  obtain ⟨-, enough, least⟩ := presExponent_least _ (quickInitPres_le ratio)
  rw [← quickInitPs_eq] at enough least
  constructor
  · rw [periodCount_eq, ratio_fits_iff ratio (Nat.two_pow_pos _)]
    exact enough
  · intro ps before
    rw [periodCount_eq, ← not_le, ratio_fits_iff ratio (Nat.two_pow_pos ps), not_le]
    exact least ps before

/-! ## What is programmed -/

/-- The registers `FTM_PWM_QuickInit` leaves in the module it is called for. -/
theorem registers_quickInit (p : Pwm) (clock ftm chl req : ℕ) :
    ((p.quickInit clock ftm chl req).ftm ftm).mod = BitVec.ofNat 16 (quickInitModulo clock req) ∧
      ((p.quickInit clock ftm chl req).ftm ftm).ps = quickInitPs clock req := by
  simp only [Pwm.quickInit, Pwm.changeDuty_ftm, Function.update_self, FTM.changeDuty_mod, and_true]
  rfl

/-- **The prescaler of a PWM module.**  Whatever the clock and the frequency asked for, as
long as some prescaler can do it: the exponent chosen is the least with which the period
count fits 16 bits, `MOD` is that count less one, and the frequency generated is not below
the one asked for. -/
theorem quickInit_prescaler {clock req : ℕ} (pos : 1 ≤ req) (slower : req ≤ clock)
    (ratio : clock / req ≤ 128 * 65535) (p : Pwm) (ftm chl : ℕ) :
    let f := (p.quickInit clock ftm chl req).ftm ftm
    f.ps ≤ 7 ∧ periodCount clock req f.ps ≤ 0xFFFF ∧
      (∀ ps < f.ps, 0xFFFF < periodCount clock req ps) ∧
      (quickInitModulo clock req : ℤ) = periodCount clock req f.ps - 1 ∧
      f.mod.toNat = quickInitModulo clock req ∧
      (f.mod.toNat + 1) * 2 ^ f.ps * req ≤ clock := by
  intro f
  obtain ⟨mod, ps⟩ := registers_quickInit p clock ftm chl req
  obtain ⟨fits, least⟩ := periodCount_fits_iff ratio
  have bounded := (presExponent_least _ (quickInitPres_le ratio)).1
  rw [← quickInitPs_eq] at bounded
  -- A count of zero would leave room for one shift less, or the clock would be too slow.
  have some_ : 0 < periodCount clock req (quickInitPs clock req) := by
    rw [periodCount_eq]
    cases exponent : quickInitPs clock req with
    | zero =>
        rw [pow_zero, Nat.div_one]
        exact Nat.div_pos slower pos
    | succ n =>
        have before := least n (by omega)
        rw [periodCount_eq] at before
        rw [pow_succ, ← Nat.div_div_eq_div_mul]
        omega
  have modulo : quickInitModulo clock req = periodCount clock req (quickInitPs clock req) - 1 := by
    have fits' : FitsUnsigned 32 ((periodCount clock req (quickInitPs clock req) : ℤ) - 1) :=
      ⟨by omega, by omega⟩
    have value := toUnsigned_eq_self fits'
    rw [quickInitModulo, ← periodCount]
    omega
  have stored : f.mod.toNat = quickInitModulo clock req := by
    rw [show f.mod = _ from mod, BitVec.toNat_ofNat, Nat.mod_eq_of_lt (by omega)]
  rw [show f.ps = _ from ps]
  refine ⟨bounded, fits, least, by omega, stored, ?_⟩
  rw [stored, modulo, Nat.sub_add_cancel some_, Nat.mul_assoc, periodCount, Nat.div_div_eq_div_mul]
  exact Nat.div_mul_le_self clock _

/-- 100 Hz out of a bus clock of 60 MHz: the ratio is 600000. -/
theorem quickInit_prescaler_servo :
    1 ≤ 100 ∧ 100 ≤ 60000000 ∧ 60000000 / 100 ≤ 128 * 65535 ∧
      ((Pwm.reset.quickInit 60000000 1 1 100).ftm 1).ps ≤ 7 :=
  ⟨by decide, by decide, by decide,
    (quickInit_prescaler (by decide) (by decide) (by decide) Pwm.reset 1 1).1⟩

/-! ## The divisors -/

/-- A division, and a note of its divisor. -/
def tracedDiv (a b : ℕ) : StateM (List ℕ) ℕ := fun divisors => (a / b, divisors ++ [b])

/-- The computation of `ps` and `modulo`, with the divisors in the order of evaluation. -/
def quickInitTraced (clock req : ℕ) : StateM (List ℕ) (ℕ × ℕ) := do
  let ratio ← tracedDiv clock req
  let pres ← tracedDiv ratio 0xFFFF
  let ratio ← tracedDiv clock req
  let again ← tracedDiv ratio pres
  let ps := presExponent (if again > 0xFFFF then pres + 1 else pres)
  let clock ← tracedDiv clock (2 ^ ps)
  let count ← tracedDiv clock req
  pure (ps, toUnsigned 32 ((count : ℤ) - 1))

/-- The divisors of a call. -/
def quickInitDivisors (clock req : ℕ) : List ℕ := (quickInitTraced clock req []).2

theorem quickInitTraced_fst (clock req : ℕ) :
    (quickInitTraced clock req []).1 = (quickInitPs clock req, quickInitModulo clock req) := rfl

theorem quickInitDivisors_eq (clock req : ℕ) :
    quickInitDivisors clock req =
      [req, 0xFFFF, req, clock / req / 0xFFFF, 2 ^ quickInitPs clock req, req] := rfl

/-- A period that needs no prescaler is divided by zero. -/
theorem divisors_ne_zero_iff {clock req : ℕ} (pos : 1 ≤ req) :
    (∀ divisor ∈ quickInitDivisors clock req, divisor ≠ 0) ↔ 0xFFFF ≤ clock / req := by
  have quotient : clock / req / 0xFFFF ≠ 0 ↔ 0xFFFF ≤ clock / req := by
    rw [← Nat.pos_iff_ne_zero, Nat.div_pos_iff]
    exact and_iff_right (by decide)
  have power : 2 ^ quickInitPs clock req ≠ 0 := (Nat.two_pow_pos _).ne'
  have req_ne : req ≠ 0 := Nat.pos_iff_ne_zero.mp pos
  rw [quickInitDivisors_eq, ← quotient]
  constructor
  · intro nonzero
    exact nonzero _ (by simp)
  · intro some_
    simp only [List.forall_mem_cons, ne_eq, req_ne, power, some_, not_false_eq_true, true_and]
    exact ⟨by decide, List.forall_mem_nil _⟩

/-- **When no divisor is zero.**  A call is free of divisions by zero exactly if the clock
is at least 65535 times the frequency asked for.  The calls of `speedInit` for the motor
channels are so at no bus clock below 655 MHz, the one for the servo channel from 19.7 MHz
on. -/
theorem quickInit_divides {clock req : ℕ} (pos : 1 ≤ req) :
    ((∀ divisor ∈ quickInitDivisors clock req, divisor ≠ 0) ↔ 0xFFFF ≤ clock / req) ∧
      (∀ bus, (∀ divisor ∈ quickInitDivisors bus 10000, divisor ≠ 0) ↔ 655350000 ≤ bus) ∧
      ∀ bus, (∀ divisor ∈ quickInitDivisors bus 300, divisor ≠ 0) ↔ 19660500 ≤ bus := by
  refine ⟨divisors_ne_zero_iff pos, fun bus => ?_, fun bus => ?_⟩
  · rw [divisors_ne_zero_iff (by decide), Nat.le_div_iff_mul_le (by decide)]
  · rw [divisors_ne_zero_iff (by decide), Nat.le_div_iff_mul_le (by decide)]

/-- The servo channel at a bus clock of 60 MHz. -/
theorem quickInit_divides_servo :
    1 ≤ 300 ∧ ∀ divisor ∈ quickInitDivisors 60000000 300, divisor ≠ 0 :=
  ⟨by decide, (quickInit_divides (by decide)).1.mpr (by decide)⟩

/-- A motor channel at a bus clock of 50 MHz. -/
theorem not_quickInit_divides : ¬ ∀ clock req : ℕ, 1 ≤ req → req ≤ clock →
    ∀ divisor ∈ quickInitDivisors clock req, divisor ≠ 0 := by
  intro always
  exact always 50000000 10000 (by decide) (by decide) 0 (by decide) rfl

end CannonCar
