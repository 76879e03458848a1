import Mathlib.Algebra.Order.Group.Int
import Mathlib.Tactic.Common

/-!
# The latest entries, and a place among them

`Past` keeps the latest entries put in, the most recent first, with a place that goes back
and forth over them; place `0` is before the most recent one.

A ring holds the same thing without moving anything: of `M` slots one, `a`, is where the
next entry goes, and the entries lie behind it.  `slot a M i` is the slot that is `i`
places behind `a`.

The place in `Past` is in bounds by construction.  Entries are counted from the most recent
one, so a new entry moves all of them by one there and none of them in the ring, where the
slots stay and the start of the count moves.
-/

namespace RecallRing

universe u

/-! ## The list -/

/-- The latest `cap` entries at most, and a place among them. -/
structure Past (α : Type u) (cap : ℕ) where
  entries : List α
  place : ℕ
  place_le : place ≤ entries.length
  length_le : entries.length ≤ cap

namespace Past

variable {α : Type u} {cap : ℕ}

/-- Nothing has been put in. -/
def nothing : Past α cap := ⟨[], 0, le_rfl, Nat.zero_le cap⟩

/-- Back before the most recent entry. -/
def rewind (p : Past α cap) : Past α cap := { p with place := 0, place_le := Nat.zero_le _ }

/-- A new entry, and the place before it. -/
def push (p : Past α cap) (a : α) : Past α cap where
  entries := (a :: p.entries).take cap
  place := 0
  place_le := Nat.zero_le _
  length_le := List.length_take_le cap _

/-- One place further back. -/
def older (p : Past α cap) : Option (Past α cap) :=
  if more : p.place < p.entries.length then
    some { p with place := p.place + 1, place_le := more }
  else none

/-- One place forth. -/
def newer (p : Past α cap) : Option (Past α cap) :=
  if p.place = 0 then none
  else some { p with place := p.place - 1, place_le := (Nat.sub_le _ _).trans p.place_le }

theorem older_entries {p q : Past α cap} (step : p.older = some q) : q.entries = p.entries := by
  unfold older at step
  split_ifs at step
  rw [← Option.some.inj step]

theorem newer_entries {p q : Past α cap} (step : p.newer = some q) : q.entries = p.entries := by
  unfold newer at step
  split_ifs at step
  rw [← Option.some.inj step]

theorem place_older (p : Past α cap) :
    (p.older.getD p).place = min (p.place + 1) p.entries.length := by
  have le := p.place_le
  unfold older
  split_ifs with more
  · exact (Nat.min_eq_left more).symm
  · rw [Option.getD_none]
    omega

theorem place_newer (p : Past α cap) : (p.newer.getD p).place = p.place - 1 := by
  unfold newer
  split_ifs with newest
  · rw [Option.getD_none, newest]
  · rfl

theorem entries_older (p : Past α cap) : (p.older.getD p).entries = p.entries := by
  cases step : p.older with
  | none => rfl
  | some q => exact older_entries step

theorem entries_newer (p : Past α cap) : (p.newer.getD p).entries = p.entries := by
  cases step : p.newer with
  | none => rfl
  | some q => exact newer_entries step

theorem older_eq_none (p : Past α cap) : p.older = none ↔ p.place = p.entries.length := by
  by_cases more : p.place < p.entries.length
  · rw [older, dif_pos more]
    exact iff_of_false (Option.some_ne_none _) (ne_of_lt more)
  · rw [older, dif_neg more]
    exact iff_of_true rfl (Nat.le_antisymm p.place_le (Nat.le_of_not_lt more))

/-- The entry at the place. -/
def shown (p : Past α cap) : Option α :=
  match p.place with
  | 0 => none
  | i + 1 => p.entries[i]?

end Past

/-! ## The ring -/

section Slots

variable {a M i : ℤ}

/-- The slot `i` places behind `a`. -/
def slot (a M i : ℤ) : ℤ := if i ≤ a then a - i else a - i + M

theorem slot_zero (nonneg : 0 ≤ a) : slot a M 0 = a := by
  rw [slot, if_pos nonneg, sub_zero]

theorem slot_bounds (a_nonneg : 0 ≤ a) (a_lt : a < M) (nonneg : 0 ≤ i) (i_lt : i < M) :
    0 ≤ slot a M i ∧ slot a M i < M := by
  unfold slot
  split_ifs <;> omega

/-- Only the place itself is its slot. -/
theorem slot_eq_self (a_nonneg : 0 ≤ a) (i_lt : i < M) : slot a M i = a ↔ i = 0 := by
  unfold slot
  split_ifs <;> omega

/-- One place further back, around the start. -/
theorem slot_add_one (a_nonneg : 0 ≤ a) (i_lt : i < M) :
    slot a M (i + 1) = if slot a M i - 1 < 0 then M - 1 else slot a M i - 1 := by
  unfold slot
  split_ifs <;> omega

/-- One place forth, around the end. -/
theorem slot_sub_one (a_lt : a < M) (pos : 1 ≤ i) :
    slot a M (i - 1) = if slot a M i + 1 > M - 1 then 0 else slot a M i + 1 := by
  unfold slot
  split_ifs <;> omega

/-- A ring that still grows: all slots move one place back. -/
theorem slot_grown (last : a = M - 1) (i_lt : i < M) :
    slot (a + 1) (M + 1) (i + 1) = slot a M i := by
  unfold slot
  split_ifs <;> omega

/-- A ring that has grown: the next slot, around the end. -/
theorem slot_turned (a_lt : a < M) (i_lt : i < M - 1) (nonneg : 0 ≤ i) :
    slot (if a + 1 ≥ M then 0 else a + 1) M (i + 1) = slot a M i := by
  unfold slot
  split_ifs <;> omega

end Slots

end RecallRing
