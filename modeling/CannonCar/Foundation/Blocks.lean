import Mathlib.Data.List.Range
import Mathlib.Tactic.Common

/-!
# The blocks an interval meets

Memory that is erased or handed out by the block is addressed by the interval.  `blocks`
is the number of blocks one gets by rounding the interval up to whole blocks, `touched`
the starts of these; `mem_touched` says that they are the blocks the interval meets.

An interval that starts inside a block meets one block more than its length may suggest, which
is what the offset of the start in `blocks` is for.  That no block met starts below a bound,
or ends above one, needs the bound to be a multiple of the size (`le_of_mem_touched`,
`add_le_of_mem_touched`), and fails without it.
-/

namespace CannonCar.Blocks

variable {size start length : ℕ}

/-- The number of blocks from the one with `start` in it on. -/
def blocks (size start length : ℕ) : ℕ := (start % size + length + size - 1) / size

/-- Where these blocks start. -/
def touched (size start length : ℕ) : List ℕ :=
  (List.range (blocks size start length)).map fun i => (start / size + i) * size

theorem length_touched : (touched size start length).length = blocks size start length := by
  rw [touched, List.length_map, List.length_range]

/-- They come in ascending order, each once. -/
theorem pairwise_touched (positive : 0 < size) : (touched size start length).Pairwise (· < ·) := by
  refine List.Pairwise.map _ ?_ List.pairwise_lt_range
  intro i j less
  exact Nat.mul_lt_mul_of_pos_right (Nat.add_lt_add_left less _) positive

/-- The number is rounded up. -/
theorem lt_blocks (positive : 0 < size) {i : ℕ} :
    i < blocks size start length ↔ (start / size + i) * size < start + length := by
  have split := Nat.div_add_mod start size
  rw [Nat.mul_comm] at split
  rw [blocks, Nat.lt_iff_add_one_le, Nat.le_div_iff_mul_le positive, Nat.succ_mul, Nat.add_mul]
  omega

/-- **The blocks are those that meet the interval.** -/
theorem mem_touched (positive : 0 < size) {s : ℕ} :
    s ∈ touched size start length ↔ size ∣ s ∧ s < start + length ∧ start < s + size := by
  have split := Nat.div_add_mod start size
  have rest := Nat.mod_lt start positive
  rw [Nat.mul_comm] at split
  rw [touched, List.mem_map]
  constructor
  · rintro ⟨i, inRange, rfl⟩
    refine ⟨Nat.dvd_mul_left _ _, (lt_blocks positive).mp (List.mem_range.mp inRange), ?_⟩
    rw [Nat.add_mul]
    omega
  · rintro ⟨⟨k, rfl⟩, before, behind⟩
    have first : start / size ≤ k := by
      have next : start < (k + 1) * size := by
        rw [Nat.succ_mul, Nat.mul_comm k]
        exact behind
      exact Nat.lt_succ_iff.mp ((Nat.div_lt_iff_lt_mul positive).mpr next)
    have place : (start / size + (k - start / size)) * size = size * k := by
      rw [Nat.add_sub_cancel' first, Nat.mul_comm]
    refine ⟨k - start / size, List.mem_range.mpr ((lt_blocks positive).mpr ?_), place⟩
    rw [place]
    exact before

/-- What meeting an interval means. -/
theorem meets_iff (some_ : 0 < length) (positive : 0 < size) {s : ℕ} :
    (∃ a, (s ≤ a ∧ a < s + size) ∧ start ≤ a ∧ a < start + length) ↔
      s < start + length ∧ start < s + size := by
  constructor
  · rintro ⟨a, ⟨low, high⟩, low', high'⟩
    exact ⟨by omega, by omega⟩
  · rintro ⟨before, behind⟩
    exact ⟨max s start, by omega⟩

/-- A bound of the interval that blocks end at bounds the blocks too. -/
theorem le_of_mem_touched (positive : 0 < size) {base s : ℕ} (aligned : size ∣ base)
    (bound : base ≤ start) (mem : s ∈ touched size start length) : base ≤ s := by
  obtain ⟨⟨k, rfl⟩, -, behind⟩ := (mem_touched positive).mp mem
  obtain ⟨j, rfl⟩ := aligned
  have less : size * j < size * (k + 1) := by
    rw [Nat.mul_succ]
    omega
  exact Nat.mul_le_mul_left _ (Nat.lt_succ_iff.mp (Nat.lt_of_mul_lt_mul_left less))

theorem add_le_of_mem_touched (positive : 0 < size) {bound s : ℕ} (aligned : size ∣ bound)
    (inside : start + length ≤ bound) (mem : s ∈ touched size start length) : s + size ≤ bound := by
  obtain ⟨⟨k, rfl⟩, before, -⟩ := (mem_touched positive).mp mem
  obtain ⟨j, rfl⟩ := aligned
  have less : k < j := Nat.lt_of_mul_lt_mul_left (lt_of_lt_of_le before inside)
  calc size * k + size = size * (k + 1) := (Nat.mul_succ _ _).symm
    _ ≤ size * j := Nat.mul_le_mul_left _ less

end CannonCar.Blocks
