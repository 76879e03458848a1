import Mathlib

/-!
# Rounding to a binary format

Round-to-nearest, ties-to-even, on the rationals, executable.  A format is given by
the number `frac` of fraction bits of its significand (23 for binary32, 52 for
binary64); its exponent is unbounded, so what is modelled is the IEEE rounding of
every value between the format's normal limits.

`Representable frac x` says that `x` is a value of the format.  Rounding lands there
(`representable_roundBinary`), does nothing to a value that is there already
(`roundBinary_eq_self`), keeps the order (`roundBinary_mono`), and moves a value by
less than a unit in its last place (`roundBinary_near`).
-/

namespace Rounding

/-- The nearest integer, the even one at a midpoint. -/
def roundHalfEven (q : ℚ) : ℤ :=
  let low := ⌊q⌋
  let rest := q - low
  if rest < 1 / 2 then low
  else if 1 / 2 < rest then low + 1
  else if low % 2 = 0 then low else low + 1

/-- The distance of neighbouring values of the format around `q > 0`. -/
def ulp (frac : ℕ) (q : ℚ) : ℚ := 2 ^ (Int.log 2 q - frac)

/-- Rounding of a non-negative value. -/
def roundNonneg (frac : ℕ) (q : ℚ) : ℚ := roundHalfEven (q / ulp frac q) * ulp frac q

/-- Rounding to nearest even with `frac` fraction bits. -/
def roundBinary (frac : ℕ) (q : ℚ) : ℚ :=
  if q < 0 then -roundNonneg frac (-q) else roundNonneg frac q

/-- `x` is a value of the format with `frac` fraction bits. -/
def Representable (frac : ℕ) (x : ℚ) : Prop :=
  ∃ m e : ℤ, |m| ≤ 2 ^ (frac + 1) ∧ x = m * 2 ^ e

/-! ## The nearest integer -/

@[simp] theorem roundHalfEven_intCast (n : ℤ) : roundHalfEven n = n := by
  simp [roundHalfEven]

theorem roundHalfEven_mem (q : ℚ) : ⌊q⌋ ≤ roundHalfEven q ∧ roundHalfEven q ≤ ⌊q⌋ + 1 := by
  unfold roundHalfEven
  dsimp only
  split_ifs <;> omega

theorem roundHalfEven_mono : Monotone roundHalfEven := by
  intro a b hab
  have hfloor : ⌊a⌋ ≤ ⌊b⌋ := Int.floor_le_floor hab
  rcases hfloor.lt_or_eq with hlt | heq
  · exact (roundHalfEven_mem a).2.trans (le_trans hlt (roundHalfEven_mem b).1)
  · unfold roundHalfEven
    dsimp only
    rw [heq]
    split_ifs <;> first | omega | (exfalso; linarith)

/-! ## One binade -/

theorem ulp_pos (frac : ℕ) (q : ℚ) : 0 < ulp frac q := by
  unfold ulp
  positivity

/-- The binade of `q` starts `2 ^ frac` ulps up and spans as many again. -/
theorem two_pow_mul_ulp (frac k : ℕ) (q : ℚ) :
    (2 : ℚ) ^ (frac + k) * ulp frac q = 2 ^ (Int.log 2 q + k) := by
  rw [ulp, ← zpow_natCast, ← zpow_add₀ (by norm_num)]
  congr 1
  push_cast
  ring

/-- Measured in its own ulp, a positive value has `frac + 1` bits before the point. -/
theorem div_ulp_mem (frac : ℕ) {q : ℚ} (hq : 0 < q) :
    2 ^ frac ≤ q / ulp frac q ∧ q / ulp frac q < 2 ^ (frac + 1) := by
  have low : (2 : ℚ) ^ Int.log 2 q ≤ q := by
    exact_mod_cast Int.zpow_log_le_self (b := 2) (by decide) hq
  have high : q < (2 : ℚ) ^ (Int.log 2 q + 1) := by
    exact_mod_cast Int.lt_zpow_succ_log_self (b := 2) (by decide) q
  have first := two_pow_mul_ulp frac 0 q
  have next := two_pow_mul_ulp frac 1 q
  rw [Nat.cast_zero, add_zero, add_zero] at first
  rw [Nat.cast_one] at next
  exact ⟨by rwa [le_div_iff₀ (ulp_pos frac q), first],
    by rwa [div_lt_iff₀ (ulp_pos frac q), next]⟩

/-- Rounding stays in the closed binade. -/
theorem roundHalfEven_div_ulp_mem (frac : ℕ) {q : ℚ} (hq : 0 < q) :
    2 ^ frac ≤ roundHalfEven (q / ulp frac q) ∧
      roundHalfEven (q / ulp frac q) ≤ 2 ^ (frac + 1) := by
  obtain ⟨low, high⟩ := div_ulp_mem frac hq
  have first := roundHalfEven_mono (show (((2 : ℤ) ^ frac : ℤ) : ℚ) ≤ _ by exact_mod_cast low)
  have last := roundHalfEven_mono
    (show _ ≤ (((2 : ℤ) ^ (frac + 1) : ℤ) : ℚ) by exact_mod_cast high.le)
  rw [roundHalfEven_intCast] at first last
  exact ⟨first, last⟩

/-- Rounding moves a value by an ulp at most. -/
theorem roundNonneg_near (frac : ℕ) {q : ℚ} (hq : 0 < q) :
    |roundNonneg frac q - q| ≤ q / 2 ^ frac := by
  obtain ⟨low, high⟩ := roundHalfEven_mem (q / ulp frac q)
  have floor := Int.floor_le (q / ulp frac q)
  have next := Int.lt_floor_add_one (q / ulp frac q)
  have pos := ulp_pos frac q
  have low' : (⌊q / ulp frac q⌋ : ℚ) ≤ roundHalfEven (q / ulp frac q) := by exact_mod_cast low
  have high' : (roundHalfEven (q / ulp frac q) : ℚ) ≤ ⌊q / ulp frac q⌋ + 1 := by
    exact_mod_cast high
  have near : |(roundHalfEven (q / ulp frac q) : ℚ) - q / ulp frac q| ≤ 1 :=
    abs_le.mpr ⟨by linarith, by linarith⟩
  have scale : (2 : ℚ) ^ frac * ulp frac q ≤ q := by
    rw [← le_div_iff₀ pos]
    exact (div_ulp_mem frac hq).1
  have apart : roundNonneg frac q - q =
      (roundHalfEven (q / ulp frac q) - q / ulp frac q) * ulp frac q := by
    rw [roundNonneg, sub_mul, div_mul_cancel₀ q pos.ne']
  calc |roundNonneg frac q - q|
      = |(roundHalfEven (q / ulp frac q) : ℚ) - q / ulp frac q| * ulp frac q := by
        rw [apart, abs_mul, abs_of_pos pos]
    _ ≤ 1 * ulp frac q := mul_le_mul_of_nonneg_right near pos.le
    _ ≤ q / 2 ^ frac := by
        rw [one_mul, le_div_iff₀ (by positivity), mul_comm]
        exact scale

theorem roundNonneg_mem (frac : ℕ) {q : ℚ} (hq : 0 < q) :
    (2 : ℚ) ^ Int.log 2 q ≤ roundNonneg frac q ∧
      roundNonneg frac q ≤ (2 : ℚ) ^ (Int.log 2 q + 1) := by
  obtain ⟨low, high⟩ := roundHalfEven_div_ulp_mem frac hq
  have low' : (2 : ℚ) ^ frac ≤ roundHalfEven (q / ulp frac q) := by exact_mod_cast low
  have high' : (roundHalfEven (q / ulp frac q) : ℚ) ≤ 2 ^ (frac + 1) := by exact_mod_cast high
  have pos := ulp_pos frac q
  have first := two_pow_mul_ulp frac 0 q
  have next := two_pow_mul_ulp frac 1 q
  rw [Nat.cast_zero, add_zero, add_zero] at first
  rw [Nat.cast_one] at next
  rw [← first, ← next]
  exact ⟨mul_le_mul_of_nonneg_right low' pos.le, mul_le_mul_of_nonneg_right high' pos.le⟩

@[simp] theorem roundNonneg_zero (frac : ℕ) : roundNonneg frac 0 = 0 := by
  have zero := roundHalfEven_intCast 0
  rw [Int.cast_zero] at zero
  rw [roundNonneg, zero_div, zero, Int.cast_zero, zero_mul]

theorem roundNonneg_nonneg (frac : ℕ) {q : ℚ} (hq : 0 ≤ q) : 0 ≤ roundNonneg frac q := by
  rcases hq.lt_or_eq with pos | rfl
  · exact le_trans (by positivity) (roundNonneg_mem frac pos).1
  · rw [roundNonneg_zero]

theorem roundNonneg_mono (frac : ℕ) {a b : ℚ} (ha : 0 ≤ a) (hab : a ≤ b) :
    roundNonneg frac a ≤ roundNonneg frac b := by
  rcases ha.lt_or_eq with pos | rfl
  · have hlog : Int.log 2 a ≤ Int.log 2 b := Int.log_mono_right pos hab
    rcases hlog.lt_or_eq with hlt | heq
    · calc roundNonneg frac a ≤ (2 : ℚ) ^ (Int.log 2 a + 1) := (roundNonneg_mem frac pos).2
        _ ≤ (2 : ℚ) ^ Int.log 2 b := zpow_le_zpow_right₀ (by norm_num) hlt
        _ ≤ roundNonneg frac b := (roundNonneg_mem frac (pos.trans_le hab)).1
    · have same : ulp frac a = ulp frac b := by rw [ulp, ulp, heq]
      have div := div_le_div_of_nonneg_right hab (ulp_pos frac b).le
      have cast : (roundHalfEven (a / ulp frac b) : ℚ) ≤ roundHalfEven (b / ulp frac b) := by
        exact_mod_cast roundHalfEven_mono div
      rw [roundNonneg, roundNonneg, same]
      exact mul_le_mul_of_nonneg_right cast (ulp_pos frac b).le
  · rw [roundNonneg_zero]
    exact roundNonneg_nonneg frac hab

/-! ## The format -/

/-- Rounding keeps the order. -/
theorem roundBinary_mono (frac : ℕ) : Monotone (roundBinary frac) := by
  intro a b hab
  unfold roundBinary
  split_ifs with ha hb hb
  · exact neg_le_neg (roundNonneg_mono frac (by linarith) (by linarith))
  · have neg := roundNonneg_nonneg frac (show 0 ≤ -a by linarith)
    have pos := roundNonneg_nonneg frac (not_lt.mp hb)
    linarith
  · linarith
  · exact roundNonneg_mono frac (not_lt.mp ha) hab

/-- Rounding moves a value by little, in proportion to it. -/
theorem roundBinary_near (frac : ℕ) (q : ℚ) : |roundBinary frac q - q| ≤ |q| / 2 ^ frac := by
  unfold roundBinary
  split_ifs with neg
  · have flipped : -roundNonneg frac (-q) - q = -(roundNonneg frac (-q) - -q) := by ring
    rw [flipped, abs_neg, abs_of_neg neg]
    exact roundNonneg_near frac (neg_pos.mpr neg)
  · rcases (not_lt.mp neg).lt_or_eq with pos | rfl
    · rw [abs_of_pos pos]
      exact roundNonneg_near frac pos
    · rw [roundNonneg_zero, sub_zero, abs_zero, zero_div]

/-- Rounding lands in the format. -/
theorem representable_roundBinary (frac : ℕ) (q : ℚ) :
    Representable frac (roundBinary frac q) := by
  have nonneg : ∀ q : ℚ, 0 ≤ q → Representable frac (roundNonneg frac q) := by
    intro q hq
    rcases hq.lt_or_eq with pos | rfl
    · obtain ⟨low, high⟩ := roundHalfEven_div_ulp_mem frac pos
      refine ⟨roundHalfEven (q / ulp frac q), Int.log 2 q - frac, ?_, rfl⟩
      rw [abs_of_nonneg (le_trans (by positivity) low)]
      exact high
    · exact ⟨0, 0, by positivity, by simp⟩
  unfold roundBinary
  split_ifs with hneg
  · obtain ⟨m, e, hm, hx⟩ := nonneg (-q) (by linarith)
    exact ⟨-m, e, by rwa [abs_neg], by rw [hx]; push_cast; ring⟩
  · exact nonneg q (not_lt.mp hneg)

/-- A value of the format is a multiple of its own ulp. -/
theorem roundNonneg_eq_self {frac : ℕ} {m e : ℤ} (pos : 0 < m) (small : m < 2 ^ (frac + 1)) :
    roundNonneg frac (m * 2 ^ e) = m * 2 ^ e := by
  have hm : (0 : ℚ) < m := by exact_mod_cast pos
  have hx : (0 : ℚ) < m * 2 ^ e := by positivity
  have bound : (m : ℚ) * 2 ^ e < ((2 : ℕ) : ℚ) ^ ((frac : ℤ) + 1 + e) := by
    have scale : (m : ℚ) < 2 ^ (frac + 1) := by exact_mod_cast small
    rw [Nat.cast_ofNat, zpow_add₀ (by norm_num)]
    exact mul_lt_mul_of_pos_right (by exact_mod_cast scale) (by positivity)
  have hlog : Int.log 2 ((m : ℚ) * 2 ^ e) < frac + 1 + e :=
    (Int.lt_zpow_iff_log_lt (by decide) hx).mp bound
  obtain ⟨k, hk⟩ := Int.eq_ofNat_of_zero_le
    (show 0 ≤ e - (Int.log 2 ((m : ℚ) * 2 ^ e) - frac) by omega)
  have multiple : (m : ℚ) * 2 ^ e / ulp frac (m * 2 ^ e) = ((m * 2 ^ k : ℤ) : ℚ) := by
    rw [ulp, mul_div_assoc, ← zpow_sub₀ (by norm_num), hk]
    push_cast
    rw [zpow_natCast]
  rw [roundNonneg, multiple, roundHalfEven_intCast, ← multiple,
    div_mul_cancel₀ _ (ulp_pos frac _).ne']

/-- Rounding leaves the values of the format alone. -/
theorem roundBinary_eq_self {frac : ℕ} {x : ℚ} (h : Representable frac x) :
    roundBinary frac x = x := by
  have positive : ∀ m e : ℤ, 0 < m → m ≤ 2 ^ (frac + 1) →
      roundNonneg frac (m * 2 ^ e) = m * 2 ^ e := by
    intro m e pos small
    rcases small.lt_or_eq with lt | rfl
    · exact roundNonneg_eq_self pos lt
    · have carry : ((2 ^ (frac + 1) : ℤ) : ℚ) * 2 ^ e = ((1 : ℤ) : ℚ) * 2 ^ (frac + 1 + e) := by
        rw [zpow_add₀ (by norm_num)]
        push_cast
        rw [one_mul]
        norm_cast
      rw [carry]
      exact roundNonneg_eq_self one_pos (one_lt_pow₀ (by norm_num) (Nat.succ_ne_zero _))
  obtain ⟨m, e, hm, rfl⟩ := h
  obtain ⟨low, high⟩ := abs_le.mp hm
  have scale : (0 : ℚ) < 2 ^ e := by positivity
  unfold roundBinary
  rcases lt_trichotomy m 0 with neg | rfl | pos
  · have hq : (m : ℚ) * 2 ^ e < 0 := mul_neg_of_neg_of_pos (by exact_mod_cast neg) scale
    have flip : -((m : ℚ) * 2 ^ e) = ((-m : ℤ) : ℚ) * 2 ^ e := by
      push_cast
      ring
    rw [if_pos hq, flip, positive (-m) e (by omega) (by omega), ← flip, neg_neg]
  · simp
  · have hq : ¬ (m : ℚ) * 2 ^ e < 0 := by
      have hm : (0 : ℚ) < m := by exact_mod_cast pos
      exact not_lt.mpr (by positivity)
    rw [if_neg hq, positive m e pos high]

/-- A format contains those with fewer fraction bits. -/
theorem Representable.widen {frac wide : ℕ} (le : frac ≤ wide) {x : ℚ}
    (h : Representable frac x) : Representable wide x := by
  obtain ⟨m, e, hm, rfl⟩ := h
  exact ⟨m, e, hm.trans (pow_le_pow_right₀ (by norm_num) (by omega)), rfl⟩

theorem representable_intCast {frac : ℕ} {n : ℤ} (small : |n| ≤ 2 ^ (frac + 1)) :
    Representable frac n :=
  ⟨n, 0, small, by simp⟩

example : roundBinary 23 (1 / 10) = 13421773 / 134217728 := by decide +kernel

end Rounding
