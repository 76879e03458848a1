import CannonCar.Foundation.MachineInt
import CannonCar.Foundation.Rounding

/-!
# C floating point over the rationals

Every finite `float` or `double` is a rational, and an IEEE operation is the
exact operation followed by a rounding.  A `FloatModel` is therefore a pair of
rounding hooks, one per precision, together with what the machine does where C
leaves a float-to-integer conversion undefined (the truncated value does not fit
the target).

Code is written once against a `FloatModel`; its meaning in exact rationals is
`FloatModel.exact`, its meaning on the target is `FloatModel.cortexM4`.  A result
that holds for every model does not depend on rounding or on the outcome of an
undefined conversion at all.  Infinities and NaNs are outside the carrier.
-/

open MachineInt Rounding

/-- The rounding hooks and the out-of-range conversions of a C implementation. -/
structure FloatModel where
  /-- Rounding to `float`. -/
  rnd : ℚ → ℚ
  /-- Rounding to `double`. -/
  rndD : ℚ → ℚ
  /-- What an out-of-range conversion to `int16_t` leaves, before reduction. -/
  outI16 : ℚ → ℤ
  /-- What an out-of-range conversion to `int` leaves, before reduction. -/
  outI32 : ℚ → ℤ
  /-- What an out-of-range conversion to `uint32_t` leaves, before reduction. -/
  outU32 : ℚ → ℤ

namespace FloatModel

/-! ## Truncation -/

/-- C's conversion to an integer discards the fractional part. -/
def trunc (q : ℚ) : ℤ := q.num.tdiv q.den

@[simp] theorem trunc_intCast (m : ℤ) : trunc (m : ℚ) = m := by
  simp [trunc]

theorem trunc_neg (q : ℚ) : trunc (-q) = -trunc q := by
  simp [trunc, Int.neg_tdiv]

/-- On non-negative rationals truncation is the floor. -/
theorem trunc_eq_floor {q : ℚ} (hq : 0 ≤ q) : trunc q = ⌊q⌋ := by
  rw [trunc, Rat.floor_def', Int.tdiv_eq_ediv_of_nonneg (Rat.num_nonneg.mpr hq)]

theorem trunc_nonneg {q : ℚ} (hq : 0 ≤ q) : 0 ≤ trunc q := by
  rw [trunc_eq_floor hq]
  exact Int.floor_nonneg.mpr hq

/-- Truncation moves a non-negative rational down by less than one. -/
theorem trunc_bounds_of_nonneg {q : ℚ} (hq : 0 ≤ q) :
    (trunc q : ℚ) ≤ q ∧ q < trunc q + 1 := by
  rw [trunc_eq_floor hq]
  exact ⟨Int.floor_le q, Int.lt_floor_add_one q⟩

/-- Truncation moves a non-positive rational up by less than one. -/
theorem trunc_bounds_of_nonpos {q : ℚ} (hq : q ≤ 0) :
    q ≤ trunc q ∧ (trunc q : ℚ) < q + 1 := by
  obtain ⟨hle, hlt⟩ := trunc_bounds_of_nonneg (neg_nonneg.mpr hq)
  rw [trunc_neg] at hle hlt
  push_cast at hle hlt
  exact ⟨by linarith, by linarith⟩

/-- Truncation moves a rational by less than one, in either direction. -/
theorem trunc_near (q : ℚ) : q - 1 < trunc q ∧ (trunc q : ℚ) < q + 1 := by
  rcases le_total 0 q with hq | hq
  · obtain ⟨hle, hlt⟩ := trunc_bounds_of_nonneg hq
    exact ⟨by linarith, by linarith⟩
  · obtain ⟨hle, hlt⟩ := trunc_bounds_of_nonpos hq
    exact ⟨by linarith, hlt⟩

/-- Truncation towards zero does not cross a negative integer from above. -/
theorem lt_trunc_iff {n : ℤ} (hn : n < 0) (q : ℚ) : n < trunc q ↔ (n : ℚ) < q := by
  rcases le_total 0 q with hq | hq
  · have pos := trunc_nonneg hq
    have neg : (n : ℚ) < 0 := by exact_mod_cast hn
    exact ⟨fun _ => by linarith, fun _ => by omega⟩
  · obtain ⟨hle, hlt⟩ := trunc_bounds_of_nonpos hq
    constructor
    · intro h
      have next : (n : ℚ) + 1 ≤ trunc q := by exact_mod_cast h
      linarith
    · intro h
      have low : (n : ℚ) < trunc q := by linarith
      exact_mod_cast low

/-- Truncation towards zero does not cross a positive integer from below. -/
theorem trunc_lt_iff {n : ℤ} (hn : 0 < n) (q : ℚ) : trunc q < n ↔ q < n := by
  have h := lt_trunc_iff (neg_neg_of_pos hn) (-q)
  rw [trunc_neg, neg_lt_neg_iff] at h
  rw [h]
  push_cast
  exact neg_lt_neg_iff

/-- Truncation keeps the order. -/
theorem trunc_mono : Monotone trunc := by
  intro a b le
  rcases le_total 0 a with nonneg | nonpos
  · rw [trunc_eq_floor nonneg, trunc_eq_floor (nonneg.trans le)]
    exact Int.floor_le_floor le
  · rcases le_total 0 b with nonneg' | nonpos'
    · have neg := trunc_nonneg (neg_nonneg.mpr nonpos)
      have pos := trunc_nonneg nonneg'
      rw [trunc_neg] at neg
      omega
    · have floors := Int.floor_le_floor (neg_le_neg le)
      rw [← trunc_eq_floor (neg_nonneg.mpr nonpos'), ← trunc_eq_floor (neg_nonneg.mpr nonpos),
        trunc_neg, trunc_neg] at floors
      omega

/-! ## Conversions to integers -/

section Conversions

variable (fm : FloatModel)

/-- `(int16_t)x`. -/
def toI16 (x : ℚ) : ℤ :=
  if FitsSigned 16 (trunc x) then trunc x else toSigned 16 (fm.outI16 x)

/-- `(int)x`. -/
def toI32 (x : ℚ) : ℤ :=
  if FitsSigned 32 (trunc x) then trunc x else toSigned 32 (fm.outI32 x)

/-- `(uint32_t)x`. -/
def toU32 (x : ℚ) : ℕ :=
  if FitsUnsigned 32 (trunc x) then (trunc x).toNat else toUnsigned 32 (fm.outU32 x)

theorem toI32_of_fits {x : ℚ} (h : FitsSigned 32 (trunc x)) : fm.toI32 x = trunc x :=
  if_pos h

theorem toU32_of_fits {x : ℚ} (h : FitsUnsigned 32 (trunc x)) :
    (fm.toU32 x : ℤ) = trunc x := by
  rw [toU32, if_pos h, Int.toNat_of_nonneg h.1]

theorem toU32_lt (x : ℚ) : fm.toU32 x < 2 ^ 32 := by
  unfold toU32
  split
  · next h =>
      obtain ⟨hlo, hhi⟩ := h
      omega
  · exact toUnsigned_lt 32 _

end Conversions

/-! ## Orderly rounding -/

/-- What IEEE 754 says of every rounding, as long as nothing overflows: it keeps the
order, it leaves the values of its format alone, and `float` is part of `double`. -/
structure Rounds (fm : FloatModel) : Prop where
  mono : Monotone fm.rnd
  monoD : Monotone fm.rndD
  rnd_rnd : ∀ x, fm.rnd (fm.rnd x) = fm.rnd x
  rndD_rnd : ∀ x, fm.rndD (fm.rnd x) = fm.rnd x
  rnd_intCast : ∀ n : ℤ, |n| ≤ 2 ^ 24 → fm.rnd n = n

section Rounds

variable {fm : FloatModel} (h : fm.Rounds)
include h

/-- A `float` is a `double`. -/
theorem Rounds.rndD_eq_self {g : ℚ} (float : fm.rnd g = g) : fm.rndD g = g := by
  rw [← float, h.rndD_rnd]

theorem Rounds.rnd_zero : fm.rnd 0 = 0 := by
  have zero := h.rnd_intCast 0 (by norm_num)
  rwa [Int.cast_zero] at zero

/-- Rounding does not cross a value of the format. -/
theorem Rounds.le_rnd {a x : ℚ} (kept : fm.rnd a = a) (le : a ≤ x) : a ≤ fm.rnd x :=
  calc a = fm.rnd a := kept.symm
    _ ≤ fm.rnd x := h.mono le

theorem Rounds.rnd_le {a x : ℚ} (kept : fm.rnd a = a) (le : x ≤ a) : fm.rnd x ≤ a :=
  calc fm.rnd x ≤ fm.rnd a := h.mono le
    _ = a := kept

theorem Rounds.le_rndD {a x : ℚ} (float : fm.rnd a = a) (le : a ≤ x) : a ≤ fm.rndD x :=
  calc a = fm.rndD a := (h.rndD_eq_self float).symm
    _ ≤ fm.rndD x := h.monoD le

theorem Rounds.rndD_le {a x : ℚ} (float : fm.rnd a = a) (le : x ≤ a) : fm.rndD x ≤ a :=
  calc fm.rndD x ≤ fm.rndD a := h.monoD le
    _ = a := h.rndD_eq_self float

end Rounds

/-- What IEEE 754 says of short binary fractions: they are values of the format. -/
def KeepsDyadics (fm : FloatModel) : Prop :=
  ∀ (m : ℤ) (k : ℕ), |m| ≤ 2 ^ 24 → k ≤ 24 → fm.rnd (m / 2 ^ k) = m / 2 ^ k

/-- What IEEE 754 says of the size of an error: it is small in proportion. -/
def Near (fm : FloatModel) : Prop := ∀ q, |fm.rnd q - q| ≤ |q| / 2 ^ 23

section Near

variable {fm : FloatModel} (near : fm.Near)
include near

theorem Near.rnd_le {q : ℚ} (nonneg : 0 ≤ q) : fm.rnd q ≤ q + q / 2 ^ 23 := by
  have bound := (abs_le.mp (near q)).2
  rw [abs_of_nonneg nonneg] at bound
  linarith

theorem Near.le_rnd {q : ℚ} (nonneg : 0 ≤ q) : q - q / 2 ^ 23 ≤ fm.rnd q := by
  have bound := (abs_le.mp (near q)).1
  rw [abs_of_nonneg nonneg] at bound
  linarith

theorem Near.rnd_le_of_nonpos {q : ℚ} (nonpos : q ≤ 0) : fm.rnd q ≤ q - q / 2 ^ 23 := by
  have bound := (abs_le.mp (near q)).2
  rw [abs_of_nonpos nonpos] at bound
  linarith

end Near

/-- Conversions to `int` saturate, as those of the FPU do. -/
def Saturates (fm : FloatModel) : Prop := ∀ q, fm.toI32 q = saturateSigned 32 (trunc q)

theorem saturates_of_out {fm : FloatModel} (out : ∀ q, fm.outI32 q = saturateSigned 32 (trunc q)) :
    fm.Saturates := by
  intro q
  unfold toI32 FitsSigned
  rw [out]
  unfold toSigned saturateSigned
  norm_num
  omega

/-! ## The two readings -/

/-- No operation rounds: floats are read as exact rationals. -/
def IsExact (fm : FloatModel) : Prop := fm.rnd = id ∧ fm.rndD = id

theorem IsExact.rnd_eq {fm : FloatModel} (h : fm.IsExact) (x : ℚ) : fm.rnd x = x := by
  rw [h.1, id]

theorem IsExact.rndD_eq {fm : FloatModel} (h : fm.IsExact) (x : ℚ) : fm.rndD x = x := by
  rw [h.2, id]

/-- Exact rationals, with the conversions of the target: the FPU saturates to 32
bits, and a narrower store keeps the low bits. -/
def exact : FloatModel where
  rnd := id
  rndD := id
  outI16 x := saturateSigned 32 (trunc x)
  outI32 x := saturateSigned 32 (trunc x)
  outU32 x := saturateUnsigned 32 (trunc x)

theorem isExact_exact : exact.IsExact := ⟨rfl, rfl⟩

theorem IsExact.rounds {fm : FloatModel} (h : fm.IsExact) : fm.Rounds where
  mono := by
    rw [h.1]
    exact monotone_id
  monoD := by
    rw [h.2]
    exact monotone_id
  rnd_rnd x := by rw [h.rnd_eq]
  rndD_rnd x := by rw [h.rndD_eq]
  rnd_intCast n _ := h.rnd_eq n

theorem IsExact.near {fm : FloatModel} (h : fm.IsExact) : fm.Near := by
  intro q
  rw [h.rnd_eq, sub_self, abs_zero]
  positivity

theorem saturates_exact : exact.Saturates := saturates_of_out fun _ => rfl

/-- The target: binary32 and binary64 arithmetic, saturating conversions. -/
def cortexM4 : FloatModel where
  rnd := roundBinary 23
  rndD := roundBinary 52
  outI16 x := saturateSigned 32 (trunc x)
  outI32 x := saturateSigned 32 (trunc x)
  outU32 x := saturateUnsigned 32 (trunc x)

theorem rounds_cortexM4 : cortexM4.Rounds where
  mono := roundBinary_mono 23
  monoD := roundBinary_mono 52
  rnd_rnd x := roundBinary_eq_self (representable_roundBinary 23 x)
  rndD_rnd x := roundBinary_eq_self ((representable_roundBinary 23 x).widen (by decide))
  rnd_intCast _ small := roundBinary_eq_self (representable_intCast small)

theorem near_cortexM4 : cortexM4.Near := roundBinary_near 23

theorem saturates_cortexM4 : cortexM4.Saturates := saturates_of_out fun _ => rfl

theorem keepsDyadics_cortexM4 : cortexM4.KeepsDyadics := by
  intro m k small _
  have value : (m : ℚ) / 2 ^ k = m * 2 ^ (-k : ℤ) := by
    rw [zpow_neg, zpow_natCast, div_eq_mul_inv]
  exact roundBinary_eq_self ⟨m, -k, small, value⟩

end FloatModel
