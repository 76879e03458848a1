import Mathlib

/-!
# Decimal conversions of `printf`

`formatInt w n` is what `%wd` writes for the integer `n`: its decimal digits, a
minus sign in front of a negative number, and blanks on the left up to the field
width `w`.  A field width never truncates, so a number too long for its field comes
out longer than the field; `length_formatInt_le_iff` says which numbers those are.

Numbers are integers of any size; a caller that passes a machine integer passes its value.  The
two conversions needed are those with and without a field width, and no flags or precisions.
-/

namespace Printf

/-- The characters of `%d`. -/
def decimal (n : ℤ) : List Char :=
  if n < 0 then '-' :: Nat.toDigits 10 n.natAbs else Nat.toDigits 10 n.natAbs

/-- The characters of `%wd`. -/
def formatInt (w : ℕ) (n : ℤ) : List Char :=
  List.replicate (w - (decimal n).length) ' ' ++ decimal n

theorem length_formatInt (w : ℕ) (n : ℤ) :
    (formatInt w n).length = max w (decimal n).length := by
  rw [formatInt, List.length_append, List.length_replicate]
  exact Nat.sub_add_eq_max _ _

/-- A field of `w + 2` characters takes `w + 1` digits after a sign. -/
theorem length_decimal_le_iff (w : ℕ) (n : ℤ) :
    (decimal n).length ≤ w + 2 ↔ -10 ^ (w + 1) < n ∧ n < 10 ^ (w + 2) := by
  have pos : ∀ k : ℕ, (0 : ℤ) < 10 ^ k := fun k => by positivity
  unfold decimal
  split
  · next neg =>
      rw [List.length_cons, Nat.add_le_add_iff_right,
        Nat.length_toDigits_le_iff (by decide) (by omega : 0 < w + 1)]
      zify
      rw [abs_of_neg neg]
      have large := pos (w + 2)
      exact ⟨fun h => ⟨by linarith, by linarith⟩, fun h => by linarith [h.1]⟩
  · next nonneg =>
      rw [Nat.length_toDigits_le_iff (by decide) (by omega : 0 < w + 2)]
      zify
      rw [abs_of_nonneg (not_lt.mp nonneg)]
      have small := pos (w + 1)
      exact ⟨fun h => ⟨by linarith, h⟩, fun h => h.2⟩

/-- A number fits its field when it has no more characters than the field. -/
theorem length_formatInt_le_iff (w : ℕ) (n : ℤ) :
    (formatInt (w + 2) n).length ≤ w + 2 ↔ -10 ^ (w + 1) < n ∧ n < 10 ^ (w + 2) := by
  rw [length_formatInt, max_le_iff, length_decimal_le_iff]
  simp

theorem le_length_formatInt (w : ℕ) (n : ℤ) : w ≤ (formatInt w n).length := by
  rw [length_formatInt]
  exact le_max_left _ _

example : formatInt 4 (-37) = [' ', '-', '3', '7'] := by decide

end Printf
