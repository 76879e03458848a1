import CannonCar.Foundation.TwoLevel
import Mathlib

/-!
# Priority tables of the kernel

`OSRdyGrp` with `OSRdyTbl` and, in every event control block, `OSEventGrp` with
`OSEventTbl` (`utilities/uCOSII/core/os_core.c`): sets of task priorities in two levels.
All users of a table put a priority in and take it out with the same few statements,
written once here, and find the highest priority — the least number — with the table
`OSUnMapTbl`.

## What is load-bearing

The set is that of `Foundation.TwoLevel` with eight words of eight bits; what is said of it there
for any width is used for the tables here, and only that `OSUnMapTbl` finds the lowest bit of
a byte is decided, for all 256 of them.  The fields `OSTCBY` to `OSTCBBitY` of a control block
are functions of its priority and are written as such.
-/

namespace CannonCar

namespace Ucos

open TwoLevel

/-- `OSUnMapTbl`, the place of the lowest one of a byte. -/
def osUnMapTbl : List ℕ := [
  0, 0, 1, 0, 2, 0, 1, 0, 3, 0, 1, 0, 2, 0, 1, 0, 4, 0, 1, 0, 2, 0, 1, 0, 3, 0, 1, 0, 2, 0, 1, 0,
  5, 0, 1, 0, 2, 0, 1, 0, 3, 0, 1, 0, 2, 0, 1, 0, 4, 0, 1, 0, 2, 0, 1, 0, 3, 0, 1, 0, 2, 0, 1, 0,
  6, 0, 1, 0, 2, 0, 1, 0, 3, 0, 1, 0, 2, 0, 1, 0, 4, 0, 1, 0, 2, 0, 1, 0, 3, 0, 1, 0, 2, 0, 1, 0,
  5, 0, 1, 0, 2, 0, 1, 0, 3, 0, 1, 0, 2, 0, 1, 0, 4, 0, 1, 0, 2, 0, 1, 0, 3, 0, 1, 0, 2, 0, 1, 0,
  7, 0, 1, 0, 2, 0, 1, 0, 3, 0, 1, 0, 2, 0, 1, 0, 4, 0, 1, 0, 2, 0, 1, 0, 3, 0, 1, 0, 2, 0, 1, 0,
  5, 0, 1, 0, 2, 0, 1, 0, 3, 0, 1, 0, 2, 0, 1, 0, 4, 0, 1, 0, 2, 0, 1, 0, 3, 0, 1, 0, 2, 0, 1, 0,
  6, 0, 1, 0, 2, 0, 1, 0, 3, 0, 1, 0, 2, 0, 1, 0, 4, 0, 1, 0, 2, 0, 1, 0, 3, 0, 1, 0, 2, 0, 1, 0,
  5, 0, 1, 0, 2, 0, 1, 0, 3, 0, 1, 0, 2, 0, 1, 0, 4, 0, 1, 0, 2, 0, 1, 0, 3, 0, 1, 0, 2, 0, 1, 0]

/-- `OSUnMapTbl[x]`. -/
def osUnMap (x : BitVec 8) : ℕ := osUnMapTbl.getD x.toNat 0

/-- `OSTCBY` of a task: the word of its priority. -/
def ostcbY (prio : ℕ) : ℕ := prio >>> 3

/-- `OSTCBX` of a task: the bit in the word. -/
def ostcbX (prio : ℕ) : ℕ := prio &&& 0x07

/-- `OSTCBBitY`. -/
def ostcbBitY (prio : ℕ) : BitVec 8 := 1#8 <<< ostcbY prio

/-- `OSTCBBitX`. -/
def ostcbBitX (prio : ℕ) : BitVec 8 := 1#8 <<< ostcbX prio

/-- A group with its table. -/
abbrev PrioTable := Table 8

namespace PrioTable

/-- `Grp |= OSTCBBitY; Tbl[OSTCBY] |= OSTCBBitX`. -/
def set (prio : ℕ) (t : PrioTable) : PrioTable :=
  ⟨t.grp ||| ostcbBitY prio,
    Function.update t.tbl (ostcbY prio) (t.tbl (ostcbY prio) ||| ostcbBitX prio)⟩

/-- `Tbl[y] &= ~OSTCBBitX; if (Tbl[y] == 0u) Grp &= ~OSTCBBitY`. -/
def clear (prio : ℕ) (t : PrioTable) : PrioTable :=
  let row := t.tbl (ostcbY prio) &&& ~~~ostcbBitX prio
  ⟨if row = 0 then t.grp &&& ~~~ostcbBitY prio else t.grp,
    Function.update t.tbl (ostcbY prio) row⟩

/-- `y = OSUnMapTbl[Grp]; prio = (y << 3u) + OSUnMapTbl[Tbl[y]]`, as in `OS_SchedNew` and
`OS_EventTaskRdy`. -/
def highest (t : PrioTable) : ℕ :=
  let y := osUnMap t.grp
  (y <<< 3) + osUnMap (t.tbl y)

end PrioTable

/-! ### The tables as sets of priorities -/

/-- The table lists the lowest ones. -/
theorem findsLowest_osUnMap : FindsLowest osUnMap := by
  have table : ∀ x : BitVec 8, x ≠ 0#8 → x.getLsbD (osUnMap x) = true ∧
      ∀ i < osUnMap x, x.getLsbD i = false := by decide +kernel
  intro x nonzero
  obtain ⟨one, below⟩ := table x nonzero
  refine ⟨one, fun i bit => ?_⟩
  by_contra before
  have clear : x.getLsbD i = false := below i (not_le.mp before)
  exact absurd bit (by simp [clear])

theorem ostcbY_eq (prio : ℕ) : ostcbY prio = prio / 8 := Nat.shiftRight_eq_div_pow prio 3

theorem ostcbX_eq (prio : ℕ) : ostcbX prio = prio % 8 := Nat.and_two_pow_sub_one_eq_mod prio 3

namespace PrioTable

theorem set_eq (prio : ℕ) (t : PrioTable) : t.set prio = t.insert prio := by
  simp only [set, Table.insert, ostcbBitY, ostcbBitX, ostcbY_eq, ostcbX_eq]

theorem clear_eq (prio : ℕ) (t : PrioTable) : t.clear prio = t.erase prio := by
  simp only [clear, Table.erase, ostcbBitY, ostcbBitX, ostcbY_eq, ostcbX_eq]

theorem highest_eq (t : PrioTable) : t.highest = t.least osUnMap := by
  simp only [highest, Table.least, Nat.shiftLeft_eq]

variable {t : PrioTable} {s : Set ℕ} {prio : ℕ}

theorem represents_set (stands : Represents t s) (inside : prio < 64) :
    Represents (t.set prio) (insert prio s) := by
  rw [set_eq]
  exact stands.insert (by decide) inside

theorem represents_clear (stands : Represents t s) (inside : prio < 64) :
    Represents (t.clear prio) (s \ {prio}) := by
  rw [clear_eq]
  exact stands.erase (by decide) inside

/-- The priority that the two lookups find is the highest one in the table. -/
theorem isLeast_highest (stands : Represents t s) (nonempty : s.Nonempty) :
    IsLeast s t.highest := by
  rw [highest_eq]
  exact stands.isLeast_least findsLowest_osUnMap (by decide) nonempty

end PrioTable

end Ucos

end CannonCar
