import CannonCar.Foundation.RecallRing
import CannonCar.Shell.Cread

/-!
# The history as a list

The ring of `hist_lines` and its four `int8_t` indices hold the latest `HIST_MAX - 1`
lines and a place among them.  `Represents` says how: the slot that the next line goes to
separates the newest line from the oldest, and is where the place is while nothing is
recalled.

## What is load-bearing

The slots are `slot a M i`, counted backwards from the one that is written next
(`Foundation.RecallRing`), so that a new line does not move the others and only changes where
counting starts.  The ring is shorter while it fills up: `hist_max` is the greatest slot used,
and it stops at `HIST_MAX - 1`.

`hist_cur` and its siblings are `int8_t` and are reduced after each step; all values they take
are small enough for that to do nothing (`toSigned_small`), which is where the width plays its
part.
-/

namespace CannonCar.Shell

open MachineInt RecallRing

/-- A string that fits the line buffer. -/
abbrev ShellString := { str : List (BitVec 8) // IsString str }

/-- The empty string. -/
def ShellString.empty : ShellString := ⟨[], Nat.zero_le _, fun _ mem => absurd mem List.not_mem_nil⟩

/-- The lines that can be recalled. -/
abbrev Recalled := Past ShellString 9

/-- The line at the place: before the newest, an empty one. -/
def Recalled.line (p : Recalled) : ShellString := (Past.shown p).getD ShellString.empty

namespace Hist

/-- The statics hold the lines and the place of `p`. -/
structure Represents (h : Hist) (p : Recalled) : Prop where
  add_nonneg : 0 ≤ h.histAddIdx
  add_le : h.histAddIdx ≤ h.histMax
  max_lt : h.histMax < histCapacity
  /-- Until the ring is full, the next line goes behind all others. -/
  filling : h.histMax < histCapacity - 1 → h.histAddIdx = h.histMax
  length_eq : (p.entries.length : ℤ) = h.histMax
  lines_eq : ∀ (i : ℕ) (inside : i < p.entries.length),
    h.histList (slot h.histAddIdx (h.histMax + 1) (i + 1)) = p.entries[i].1
  /-- `-1` until the first line has been entered. -/
  cur_eq : h.histCur = slot h.histAddIdx (h.histMax + 1) p.place ∨
    h.histCur = -1 ∧ p.entries = []

theorem represents_histInit : histInit.Represents Past.nothing where
  add_nonneg := le_rfl
  add_le := le_rfl
  max_lt := by decide
  filling _ := rfl
  length_eq := rfl
  lines_eq i inside := absurd inside (Nat.not_lt_zero i)
  cur_eq := Or.inr ⟨rfl, rfl⟩

variable {h : Hist} {p : Recalled}

/-- The indices stay far below the bounds of their type. -/
theorem toSigned_small {x : ℤ} (low : -1 ≤ x) (high : x ≤ histCapacity) : toSigned 8 x = x := by
  apply toSigned_eq_self
  unfold FitsSigned
  unfold histCapacity at high
  omega

theorem Represents.place_lt (r : h.Represents p) : (p.place : ℤ) < h.histMax + 1 := by
  have le := p.place_le
  have length := r.length_eq
  omega

/-- Nothing is there to go back to as long as there is no place. -/
theorem Represents.of_cur_neg (r : h.Represents p) (negative : h.histCur < 0) : p.entries = [] := by
  rcases r.cur_eq with cur | ⟨-, empty⟩
  · have bounds := slot_bounds r.add_nonneg (Int.lt_add_one_of_le r.add_le)
      (Int.natCast_nonneg p.place) r.place_lt
    omega
  · exact empty

/-- Where there is a place, it is in its slot. -/
theorem Represents.cur_slot (r : h.Represents p) (nonneg : 0 ≤ h.histCur) :
    h.histCur = slot h.histAddIdx (h.histMax + 1) p.place := by
  rcases r.cur_eq with cur | ⟨negative, -⟩
  · exact cur
  · omega

/-- The line in the slot of a place. -/
theorem Represents.line_eq (r : h.Represents p) {i : ℕ} (place : p.place = i + 1) :
    h.histList (slot h.histAddIdx (h.histMax + 1) (i + 1)) = (Recalled.line p).1 := by
  have inside : i < p.entries.length := by
    have le := p.place_le
    omega
  rw [r.lines_eq i inside, Recalled.line, Past.shown, place]
  simp only [List.getElem?_eq_getElem inside, Option.getD_some]

/-! ## Going back and forth -/

/-- Another place, in its slot. -/
theorem Represents.move (r : h.Represents p) {place : ℕ} (place_le : place ≤ p.entries.length)
    {cur : ℤ} (cur_eq : cur = slot h.histAddIdx (h.histMax + 1) place) :
    { h with histCur := cur }.Represents { p with place := place, place_le := place_le } where
  add_nonneg := r.add_nonneg
  add_le := r.add_le
  max_lt := r.max_lt
  filling := r.filling
  length_eq := r.length_eq
  lines_eq := r.lines_eq
  cur_eq := Or.inl cur_eq

/-- `hist_prev` goes one place back and answers with the line there, or with nothing
behind the oldest line. -/
theorem Represents.histPrev (r : h.Represents p) :
    h.histPrev.1.Represents ((Past.older p).getD p) ∧
      h.histPrev.2 = (Past.older p).map fun q => (Recalled.line q).1 := by
  have add_lt := Int.lt_add_one_of_le r.add_le
  have place_lt := r.place_lt
  have max_lt := r.max_lt
  have length := r.length_eq
  by_cases negative : h.histCur < 0
  · have empty := r.of_cur_neg negative
    have oldest : Past.older p = none := dif_neg (by rw [empty]; exact Nat.not_lt_zero _)
    rw [Hist.histPrev, if_pos negative, oldest]
    exact ⟨r, rfl⟩
  have cur := r.cur_slot (not_lt.mp negative)
  have bounds := slot_bounds r.add_nonneg add_lt (Int.natCast_nonneg p.place) place_lt
  have next := slot_add_one r.add_nonneg place_lt
  rw [add_sub_cancel_right, ← cur] at next
  have small : toSigned 8 (h.histCur - 1) = h.histCur - 1 := by
    apply toSigned_small <;> unfold histCapacity at * <;> omega
  have back : toSigned 8 (toUnsigned 8 h.histCur) = h.histCur := by
    rw [toSigned_toUnsigned]
    apply toSigned_small <;> unfold histCapacity at * <;> omega
  rw [Hist.histPrev, if_neg negative]
  simp only [small, back, ← next]
  by_cases more : p.place < p.entries.length
  · have inside : (p.place : ℤ) + 1 < h.histMax + 1 := by omega
    have moved : slot h.histAddIdx (h.histMax + 1) (p.place + 1) ≠ h.histAddIdx := by
      rw [Ne, slot_eq_self r.add_nonneg inside]
      omega
    rw [if_neg moved, Past.older, dif_pos more]
    have represents := r.move (Nat.succ_le_of_lt more) rfl
    push_cast at represents
    exact ⟨represents, congrArg some (represents.line_eq rfl)⟩
  · have last : (p.place : ℤ) + 1 = h.histMax + 1 := by
      have le := p.place_le
      omega
    have around : slot h.histAddIdx (h.histMax + 1) (p.place + 1) = h.histAddIdx := by
      rw [last, slot, if_neg (by omega)]
      omega
    rw [if_pos around, Past.older, dif_neg more]
    exact ⟨r, rfl⟩

/-- `hist_next` goes one place forth, in the end to the empty line. -/
theorem Represents.histNext (r : h.Represents p) :
    h.histNext.1.Represents ((Past.newer p).getD p) ∧
      h.histNext.2 = (Past.newer p).map fun q => (Recalled.line q).1 := by
  have add_lt := Int.lt_add_one_of_le r.add_le
  have place_lt := r.place_lt
  have max_lt := r.max_lt
  have le := p.place_le
  by_cases negative : h.histCur < 0
  · have empty := r.of_cur_neg negative
    rw [empty, List.length_nil, Nat.le_zero] at le
    rw [Hist.histNext, if_pos negative, Past.newer, if_pos le]
    exact ⟨r, rfl⟩
  have cur := r.cur_slot (not_lt.mp negative)
  have atAdd : h.histCur = h.histAddIdx ↔ p.place = 0 := by
    rw [cur, slot_eq_self r.add_nonneg place_lt, Nat.cast_eq_zero]
  rw [Hist.histNext, if_neg negative]
  by_cases newest : p.place = 0
  · rw [if_pos (atAdd.mpr newest), Past.newer, if_pos newest]
    exact ⟨r, rfl⟩
  obtain ⟨i, place⟩ := Nat.exists_eq_succ_of_ne_zero newest
  have bounds := slot_bounds r.add_nonneg add_lt (Int.natCast_nonneg p.place) place_lt
  have next := slot_sub_one add_lt (i := p.place) (by omega)
  rw [add_sub_cancel_right, ← cur, place, Nat.succ_eq_add_one, Nat.cast_add_one,
    add_sub_cancel_right] at next
  have small : toSigned 8 (h.histCur + 1) = h.histCur + 1 := by
    apply toSigned_small <;> unfold histCapacity at * <;> omega
  have i_le : i ≤ p.entries.length := by omega
  have represents := r.move i_le rfl
  have isNewest : slot h.histAddIdx (h.histMax + 1) i = h.histAddIdx ↔ i = 0 := by
    rw [slot_eq_self r.add_nonneg (by omega), Nat.cast_eq_zero]
  rw [if_neg (fun same => newest (atAdd.mp same)), Past.newer, if_neg newest]
  simp only [small, ← next, place, Nat.succ_eq_add_one, Nat.add_sub_cancel, Option.getD_some,
    Option.map_some, isNewest]
  refine ⟨represents, congrArg some ?_⟩
  cases i with
  | zero => rfl
  | succ i =>
      rw [if_neg (Nat.succ_ne_zero i), Nat.cast_add_one]
      exact represents.line_eq rfl

/-! ## A new line -/

/-- Where the indices are once a line has been added: the slot `i` places behind the old
end is one place further behind the new one. -/
theorem Represents.added (r : h.Represents p) (str : List (BitVec 8)) :
    let h' := h.creadAddToHist str
    0 ≤ h'.histAddIdx ∧ h'.histAddIdx ≤ h'.histMax ∧ h'.histMax < histCapacity ∧
      (h'.histMax < histCapacity - 1 → h'.histAddIdx = h'.histMax) ∧
      h'.histMax = min (histCapacity - 1) (h.histMax + 1) ∧
      ∀ i : ℤ, 0 ≤ i → i < h'.histMax →
        slot h'.histAddIdx (h'.histMax + 1) (i + 1) = slot h.histAddIdx (h.histMax + 1) i := by
  have add_le := r.add_le
  have add_nonneg := r.add_nonneg
  have max_lt := r.max_lt
  have filling := r.filling
  have small : toSigned 8 (h.histAddIdx + 1) = h.histAddIdx + 1 :=
    toSigned_small (by omega) (by omega)
  simp only [Hist.creadAddToHist, small]
  unfold histCapacity at *
  by_cases full : h.histMax = 9
  · have same : (if (if h.histAddIdx + 1 ≥ 10 then 0 else h.histAddIdx + 1) > h.histMax then
        (if h.histAddIdx + 1 ≥ 10 then 0 else h.histAddIdx + 1) else h.histMax) = 9 := by
      split_ifs <;> omega
    rw [same]
    refine ⟨by split_ifs <;> omega, by split_ifs <;> omega, by omega, by omega, by omega, ?_⟩
    intro i nonneg inside
    rw [full]
    exact slot_turned (by omega) inside nonneg
  · have last := filling (by omega)
    rw [if_neg (by omega : ¬ h.histAddIdx + 1 ≥ 10),
      if_pos (by omega : h.histAddIdx + 1 > h.histMax)]
    refine ⟨by omega, le_rfl, by omega, fun _ => rfl, by omega, ?_⟩
    intro i nonneg inside
    rw [← last]
    exact slot_grown (by omega) (by omega)

/-- A line that is kept becomes the newest. -/
theorem Represents.creadAddToHist (r : h.Represents p) (str : ShellString) :
    { h.creadAddToHist str.1 with histCur := (h.creadAddToHist str.1).histAddIdx }.Represents
      (Past.push p str) := by
  obtain ⟨add_nonneg, add_le, max_lt, filling, max_eq, behind⟩ := r.added str.1
  have length := r.length_eq
  have length_eq : (((str :: p.entries).take 9).length : ℤ) = (h.creadAddToHist str.1).histMax := by
    rw [max_eq, List.length_take, List.length_cons]
    unfold histCapacity
    omega
  refine ⟨add_nonneg, add_le, max_lt, filling, length_eq, ?_, Or.inl (slot_zero add_nonneg).symm⟩
  intro i inside
  change i < ((str :: p.entries).take 9).length at inside
  have inMax : (i : ℤ) < (h.creadAddToHist str.1).histMax := by
    rw [← length_eq]
    exact Int.ofNat_lt.mpr inside
  show Function.update h.histList h.histAddIdx str.1 (slot _ _ _) = ((str :: p.entries).take 9)[i].1
  rw [behind i (Int.natCast_nonneg i) inMax, List.getElem_take]
  cases i with
  | zero => rw [Nat.cast_zero, slot_zero r.add_nonneg, Function.update_self, List.getElem_cons_zero]
  | succ i =>
      have kept : i < p.entries.length := by
        rw [List.length_take, List.length_cons] at inside
        omega
      have other : slot h.histAddIdx (h.histMax + 1) (i + 1) ≠ h.histAddIdx := by
        rw [Ne, slot_eq_self r.add_nonneg (by omega)]
        omega
      rw [Nat.cast_add_one, Function.update_of_ne other, List.getElem_cons_succ]
      exact r.lines_eq i kept

/-- A line that is not kept. -/
theorem Represents.rewind (r : h.Represents p) :
    { h with histCur := h.histAddIdx }.Represents (Past.rewind p) :=
  r.move (Nat.zero_le _) (slot_zero r.add_nonneg).symm

end Hist

end CannonCar.Shell
