import Mathlib.Data.BitVec
import Mathlib.Order.Interval.Finset.Nat
import Mathlib.Tactic.Common

/-!
# Bitmaps

A word of `w` bits stands for the set of the places of its ones (`Represents`).  Masks of
one bit put a place in, take it out and ask for it, and a search from the low end for a
clear bit finds the least place that is not in the set (`find?_clear_eq_some`).

The set is one of all natural numbers and not of those below `w`: that its members are below
`w` follows (`Represents.lt`), and a set operation needs no side condition but that the place
it changes is one of the word.
-/

namespace Bitmap

variable {w : ℕ} {x : BitVec w} {s : Set ℕ} {i : ℕ}

/-- The ones of the word are the places of the set. -/
def Represents (x : BitVec w) (s : Set ℕ) : Prop := ∀ i, x.getLsbD i = true ↔ i ∈ s

theorem represents_zero : Represents (0#w) ∅ := by
  intro i
  simp only [BitVec.getLsbD_zero, Bool.false_eq_true, Set.mem_empty_iff_false]

/-- A place of the set is a bit of the word. -/
theorem Represents.lt (stands : Represents x s) (mem : i ∈ s) : i < w := by
  by_contra outside
  have one := (stands i).mpr mem
  rw [BitVec.getLsbD_of_ge x i (not_lt.mp outside)] at one
  exact absurd one (by decide)

theorem getLsbD_oneBit (inside : i < w) (j : ℕ) : (1#w <<< i).getLsbD j = decide (i = j) := by
  rw [← BitVec.twoPow_eq, BitVec.getLsbD_twoPow, decide_eq_true inside, Bool.true_and]

/-- Setting a bit puts its place in. -/
theorem Represents.insert (stands : Represents x s) (inside : i < w) :
    Represents (x ||| 1#w <<< i) (Insert.insert i s) := by
  intro j
  rw [BitVec.getLsbD_or, getLsbD_oneBit inside, Bool.or_eq_true, stands j, decide_eq_true_eq,
    Set.mem_insert_iff, or_comm, eq_comm]

/-- Clearing a bit takes its place out. -/
theorem Represents.erase (stands : Represents x s) (inside : i < w) :
    Represents (x &&& ~~~(1#w <<< i)) (s \ {i}) := by
  intro j
  rw [BitVec.getLsbD_and, BitVec.getLsbD_not, getLsbD_oneBit inside, Set.mem_sdiff,
    Set.mem_singleton_iff, ← stands j]
  constructor
  · intro bits
    obtain ⟨one, cleared⟩ := Bool.and_eq_true_iff.mp bits
    have other := (Bool.and_eq_true_iff.mp cleared).2
    exact ⟨one, fun same => by simp [same] at other⟩
  · rintro ⟨one, other⟩
    have bound : j < w := stands.lt ((stands j).mp one)
    simp [one, bound, Ne.symm other]

/-- A mask of one bit asks for its place. -/
theorem Represents.and_oneBit_eq_zero (stands : Represents x s) (inside : i < w) :
    x &&& 1#w <<< i = 0 ↔ i ∉ s := by
  have nonzero : BitVec.twoPow w i ≠ 0#w := by
    intro zero
    have bit := getLsbD_oneBit inside i
    rw [← BitVec.twoPow_eq, zero, BitVec.getLsbD_zero] at bit
    exact absurd bit (by simp)
  rw [← stands i, ← BitVec.twoPow_eq, BitVec.and_twoPow]
  by_cases one : x.getLsbD i = true
  · simp only [one, if_true, not_true_eq_false, iff_false]
    exact nonzero
  · simp only [one, Bool.false_eq_true, if_false, not_false_eq_true, iff_true]
    rfl

/-- The first clear bit below `n` is the least place that is not in the set. -/
theorem find?_clear_eq_some {n : ℕ} (stands : Represents x s) (within : n ≤ w) :
    ((List.range n).find? fun j => x &&& 1#w <<< j = 0) = some i ↔ i < n ∧ IsLeast sᶜ i := by
  have test : ∀ j < n, x &&& 1#w <<< j = 0 ↔ j ∉ s :=
    fun j lt => stands.and_oneBit_eq_zero (lt_of_lt_of_le lt within)
  rw [List.find?_range_eq_some]
  constructor
  · rintro ⟨clear, mem, before⟩
    have lt := List.mem_range.mp mem
    refine ⟨lt, (test i lt).mp (of_decide_eq_true clear), ?_⟩
    intro j free
    by_contra less
    have smaller := not_le.mp less
    have taken := before j smaller
    rw [decide_eq_true ((test j (smaller.trans lt)).mpr free)] at taken
    exact absurd taken (by decide)
  · rintro ⟨lt, free, least⟩
    refine ⟨decide_eq_true ((test i lt).mpr free), List.mem_range.mpr lt, ?_⟩
    intro j smaller
    have taken : ¬ x &&& 1#w <<< j = 0 := fun clear =>
      absurd (least ((test j (smaller.trans lt)).mp clear)) (not_le.mpr smaller)
    rw [decide_eq_false taken, Bool.not_false]

end Bitmap
