import Mathlib

/-!
# Fixed-width machine integers

A C integer of width `w` is carried here by the mathematical integer it stands
for.  Storing a value that does not fit is *reduction*: `toSigned w` keeps the
low `w` bits and reads them in two's complement, `toUnsigned w` keeps them and
reads them as a natural number.

The two facts every overflow argument uses are that reduction lands in range
(`fits_toSigned`, `toUnsigned_lt`) and that it does nothing to a value already in
range (`toSigned_eq_self`, `toUnsigned_eq_self`).
-/

namespace MachineInt

/-- `x` is representable as a signed integer of `w` bits. -/
def FitsSigned (w : ℕ) (x : ℤ) : Prop := -2 ^ (w - 1) ≤ x ∧ x < 2 ^ (w - 1)

instance (w : ℕ) (x : ℤ) : Decidable (FitsSigned w x) :=
  inferInstanceAs (Decidable (_ ∧ _))

/-- `x` is representable as an unsigned integer of `w` bits. -/
def FitsUnsigned (w : ℕ) (x : ℤ) : Prop := 0 ≤ x ∧ x < 2 ^ w

instance (w : ℕ) (x : ℤ) : Decidable (FitsUnsigned w x) :=
  inferInstanceAs (Decidable (_ ∧ _))

/-- The low `w` bits of `x`, read in two's complement. -/
def toSigned (w : ℕ) (x : ℤ) : ℤ := (x + 2 ^ (w - 1)) % 2 ^ w - 2 ^ (w - 1)

/-- The low `w` bits of `x`, read as a natural number. -/
def toUnsigned (w : ℕ) (x : ℤ) : ℕ := (x % 2 ^ w).toNat

/-- `x` forced into the signed range of `w` bits, as a saturating conversion
does. -/
def saturateSigned (w : ℕ) (x : ℤ) : ℤ := max (-2 ^ (w - 1)) (min x (2 ^ (w - 1) - 1))

/-- `x` forced into the unsigned range of `w` bits. -/
def saturateUnsigned (w : ℕ) (x : ℤ) : ℕ := (max 0 (min x (2 ^ w - 1))).toNat

private theorem two_pow_split (w : ℕ) [NeZero w] :
    (2 : ℤ) ^ w = 2 ^ (w - 1) + 2 ^ (w - 1) := by
  obtain ⟨v, rfl⟩ := Nat.exists_eq_succ_of_ne_zero (NeZero.ne w)
  show (2 : ℤ) ^ (v + 1) = 2 ^ (v + 1 - 1) + 2 ^ (v + 1 - 1)
  rw [Nat.add_sub_cancel, pow_succ]
  ring

/-- Reduction lands in range. -/
theorem fits_toSigned (w : ℕ) [NeZero w] (x : ℤ) : FitsSigned w (toSigned w x) := by
  have hpos : (0 : ℤ) < 2 ^ w := by positivity
  have hsplit := two_pow_split w
  have hlo := Int.emod_nonneg (x + 2 ^ (w - 1)) hpos.ne'
  have hhi := Int.emod_lt_of_pos (x + 2 ^ (w - 1)) hpos
  exact ⟨by unfold toSigned; linarith, by unfold toSigned; linarith⟩

/-- A value in range is stored as it is. -/
theorem toSigned_eq_self {w : ℕ} [NeZero w] {x : ℤ} (h : FitsSigned w x) :
    toSigned w x = x := by
  have hsplit := two_pow_split w
  obtain ⟨hlo, hhi⟩ := h
  rw [toSigned, Int.emod_eq_of_lt (by linarith) (by linarith)]
  ring

theorem toUnsigned_lt (w : ℕ) (x : ℤ) : toUnsigned w x < 2 ^ w := by
  have hpos : (0 : ℤ) < 2 ^ w := by positivity
  have hlo := Int.emod_nonneg x hpos.ne'
  have hhi := Int.emod_lt_of_pos x hpos
  have hcast : ((2 ^ w : ℕ) : ℤ) = 2 ^ w := by push_cast; rfl
  unfold toUnsigned
  omega

/-- A value in the unsigned range is stored as it is. -/
theorem toUnsigned_eq_self {w : ℕ} {x : ℤ} (h : FitsUnsigned w x) :
    (toUnsigned w x : ℤ) = x := by
  rw [toUnsigned, Int.emod_eq_of_lt h.1 h.2, Int.toNat_of_nonneg h.1]

theorem toUnsigned_natCast {w n : ℕ} (h : n < 2 ^ w) : toUnsigned w (n : ℤ) = n := by
  have value := toUnsigned_eq_self (w := w) (x := n) ⟨Int.natCast_nonneg n, by exact_mod_cast h⟩
  exact_mod_cast value

/-- The difference of two counters, the smaller taken from the larger. -/
theorem toUnsigned_sub {w m n : ℕ} (le : n ≤ m) (h : m < 2 ^ w) :
    toUnsigned w ((m : ℤ) - n) = m - n := by
  rw [← Nat.cast_sub le]
  exact toUnsigned_natCast (lt_of_le_of_lt (Nat.sub_le m n) h)

theorem toUnsigned_add_one {w m : ℕ} (h : m + 1 < 2 ^ w) : toUnsigned w ((m : ℤ) + 1) = m + 1 := by
  exact_mod_cast toUnsigned_natCast h

theorem toUnsigned_sub_one {w m : ℕ} (pos : 1 ≤ m) (h : m < 2 ^ w) :
    toUnsigned w ((m : ℤ) - 1) = m - 1 := by
  exact_mod_cast toUnsigned_sub pos h

/-- Writing a signed value through an unsigned variable of the same width and
reading it back changes nothing. -/
theorem toSigned_toUnsigned (w : ℕ) (x : ℤ) :
    toSigned w (toUnsigned w x) = toSigned w x := by
  have hpos : (0 : ℤ) < 2 ^ w := by positivity
  have hcast : (toUnsigned w x : ℤ) = x % 2 ^ w :=
    Int.toNat_of_nonneg (Int.emod_nonneg x hpos.ne')
  rw [toSigned, toSigned, hcast, Int.emod_add_emod]

/-- Where a multiple of `u` and the modulus `W` are given, the progression in steps of
`u` avoids the residues below `B` exactly when it starts above them and does not go
round. -/
theorem progression_mod {W u a B n : ℕ} (aligned : u ∣ a) (divides : u ∣ W) (positive : 0 < W)
    (low : 0 < B) :
    (∀ i < n, B ≤ (a + i * u) % W) ↔ n = 0 ∨ B ≤ a % W ∧ a % W + n * u ≤ W := by
  have inside : a % W < W := Nat.mod_lt a positive
  constructor
  · intro above
    rcases Nat.eq_zero_or_pos n with rfl | some_
    · exact Or.inl rfl
    · have first := above 0 some_
      rw [Nat.zero_mul, Nat.add_zero] at first
      refine Or.inr ⟨first, ?_⟩
      by_contra past
      -- one term of the progression would have the residue zero
      have gap : u ∣ W - a % W := Nat.dvd_sub divides ((Nat.dvd_mod_iff divides).mpr aligned)
      obtain ⟨i, isGap⟩ := gap
      have reached : a % W + i * u = W := by
        rw [Nat.mul_comm, ← isGap]
        exact Nat.add_sub_cancel' inside.le
      have early : i < n := by
        by_contra late
        have bound : n * u ≤ i * u := Nat.mul_le_mul_right u (not_lt.mp late)
        omega
      have hit := above i early
      rw [← Nat.mod_add_mod, reached, Nat.mod_self] at hit
      exact absurd hit (not_le_of_gt low)
  · rintro (rfl | ⟨first, fits⟩) i before
    · exact absurd before (Nat.not_lt_zero i)
    · have step : 0 < u := Nat.pos_of_dvd_of_pos divides positive
      have next : (i + 1) * u ≤ n * u := Nat.mul_le_mul_right u before
      rw [Nat.succ_mul] at next
      rw [← Nat.mod_add_mod, Nat.mod_eq_of_lt (by omega)]
      exact le_trans first (Nat.le_add_right _ _)

/-! ## Masks -/

/-- Clearing the low bits. -/
theorem toNat_and_not_mask (k : ℕ) (x : BitVec 32) :
    (x &&& ~~~(BitVec.ofNat 32 (2 ^ k - 1))).toNat = x.toNat / 2 ^ k * 2 ^ k := by
  have shifts : x &&& ~~~(BitVec.ofNat 32 (2 ^ k - 1)) = x >>> k <<< k := by
    apply BitVec.eq_of_getLsbD_eq
    intro i inside
    rw [BitVec.getLsbD_and, BitVec.getLsbD_not, BitVec.getLsbD_ofNat, Nat.testBit_two_pow_sub_one,
      BitVec.getLsbD_shiftLeft, BitVec.getLsbD_ushiftRight]
    by_cases low : i < k
    · simp [low]
    · simp [low, inside, Nat.add_sub_cancel' (not_lt.mp low)]
  have fits : x.toNat / 2 ^ k * 2 ^ k < 2 ^ 32 :=
    lt_of_le_of_lt (Nat.div_mul_le_self _ _) x.isLt
  rw [shifts, BitVec.toNat_shiftLeft, BitVec.toNat_ushiftRight, Nat.shiftRight_eq_div_pow,
    Nat.shiftLeft_eq, Nat.mod_eq_of_lt fits]

/-- Keeping the low bits. -/
theorem toNat_and_mask {k : ℕ} (small : k ≤ 32) (x : BitVec 32) :
    (x &&& BitVec.ofNat 32 (2 ^ k - 1)).toNat = x.toNat % 2 ^ k := by
  have mask : 2 ^ k - 1 < 2 ^ 32 :=
    lt_of_lt_of_le (Nat.sub_lt (Nat.two_pow_pos k) Nat.one_pos)
      (Nat.pow_le_pow_right (by decide) small)
  rw [BitVec.toNat_and, BitVec.toNat_ofNat, Nat.mod_eq_of_lt mask, Nat.and_two_pow_sub_one_eq_mod]

end MachineInt
