import Mathlib

/-!
# Double-ended queues in a ring of slots

A ring of `size` slots holds a list in the `count` slots from `first` on, wrapping at the
end.  Entries are put in behind the last one or before the first one and taken out at the
front; none of them moves (`contents_pushBack`, `contents_pushFront`, `contents_popFront`).

`first` and `count` make up the state, not two ends: with the ends alone a full ring could not
be told from an empty one.  Slots outside the list hold whatever they held, so two buffers
with the same contents need not be equal, and what the rules speak of is the contents.
-/

namespace Deque

universe u

/-- The slots, the one the list starts in, and the length of the list. -/
structure Buffer (α : Type u) where
  size : ℕ
  mem : ℕ → α
  first : ℕ
  count : ℕ

variable {α : Type u}

namespace Buffer

/-- The slot of the `i`-th entry. -/
def slot (r : Buffer α) (i : ℕ) : ℕ := (r.first + i) % r.size

/-- The list that the ring holds. -/
def contents (r : Buffer α) : List α := (List.range r.count).map fun i => r.mem (r.slot i)

/-- The list starts in a slot and does not run into itself. -/
structure Ok (r : Buffer α) : Prop where
  first_lt : r.first < r.size
  count_le : r.count ≤ r.size

/-- Put an entry behind the last one. -/
def pushBack (a : α) (r : Buffer α) : Buffer α :=
  { r with mem := Function.update r.mem (r.slot r.count) a, count := r.count + 1 }

/-- Put an entry before the first one. -/
def pushFront (a : α) (r : Buffer α) : Buffer α :=
  let first := if r.first = 0 then r.size - 1 else r.first - 1
  { r with mem := Function.update r.mem first a, first := first, count := r.count + 1 }

/-- Take the first entry out. -/
def popFront (r : Buffer α) : Buffer α :=
  { r with first := (r.first + 1) % r.size, count := r.count - 1 }

variable {r : Buffer α} {a : α}

@[simp] theorem length_contents (r : Buffer α) : r.contents.length = r.count := by
  rw [contents, List.length_map, List.length_range]

theorem contents_eq_nil_iff : r.contents = [] ↔ r.count = 0 := by
  rw [← List.length_eq_zero_iff, length_contents]

theorem Ok.size_pos (ok : r.Ok) : 0 < r.size := ok.first_lt.pos

/-- Entries of different places are in different slots. -/
theorem slot_injective {i j : ℕ} (hi : i < r.size) (hj : j < r.size)
    (same : r.slot i = r.slot j) : i = j := by
  have cong : r.first + i ≡ r.first + j [MOD r.size] := same
  have : i ≡ j [MOD r.size] := Nat.ModEq.add_left_cancel' _ cong
  rwa [Nat.ModEq, Nat.mod_eq_of_lt hi, Nat.mod_eq_of_lt hj] at this

theorem contents_pushBack (room : r.count < r.size) :
    (r.pushBack a).contents = r.contents ++ [a] := by
  have grown : (r.pushBack a).count = r.count + 1 := rfl
  rw [contents, grown, List.range_succ, List.map_append, List.map_singleton]
  congr 1
  · refine List.map_congr_left fun i mem => ?_
    have before : i < r.count := List.mem_range.mp mem
    have other : r.slot i ≠ r.slot r.count := fun same =>
      before.ne (slot_injective (before.trans room) room same)
    exact Function.update_of_ne other a r.mem
  · rw [List.singleton_inj]
    exact Function.update_self ..

theorem Ok.pushBack (ok : r.Ok) (room : r.count < r.size) : (r.pushBack a).Ok :=
  ⟨ok.first_lt, room⟩

/-- The slot before the first one. -/
theorem Ok.before_first (ok : r.Ok) :
    (r.pushFront a).first < r.size ∧ ((r.pushFront a).first + 1) % r.size = r.first := by
  have lt := ok.first_lt
  have eq : (r.pushFront a).first = if r.first = 0 then r.size - 1 else r.first - 1 := rfl
  rw [eq]
  split_ifs with zero
  · have whole : r.size - 1 + 1 = r.size := by omega
    rw [whole, Nat.mod_self, zero]
    exact ⟨by omega, rfl⟩
  · have back : r.first - 1 + 1 = r.first := by omega
    rw [back, Nat.mod_eq_of_lt lt]
    exact ⟨by omega, rfl⟩

theorem Ok.contents_pushFront (ok : r.Ok) (room : r.count < r.size) :
    (r.pushFront a).contents = a :: r.contents := by
  obtain ⟨inside, next⟩ := ok.before_first (a := a)
  have grown : (r.pushFront a).count = r.count + 1 := rfl
  have shifted : ∀ i, (r.pushFront a).slot (i + 1) = r.slot i := by
    intro i
    have split : (r.pushFront a).first + (i + 1) = (r.pushFront a).first + 1 + i := by omega
    rw [slot, slot, split, show (r.pushFront a).size = r.size from rfl, ← Nat.mod_add_mod, next]
  have start : (r.pushFront a).slot 0 = (r.pushFront a).first := Nat.mod_eq_of_lt inside
  rw [contents, grown, List.range_succ_eq_map, List.map_cons, List.map_map, start]
  congr 1
  · exact Function.update_self ..
  · refine List.map_congr_left fun i mem => ?_
    have lt : i + 1 < r.size := lt_of_le_of_lt (List.mem_range.mp mem) room
    have other : r.slot i ≠ (r.pushFront a).first := by
      rw [← shifted i, ← start]
      exact fun same => absurd (slot_injective (r := r.pushFront a) lt ok.size_pos same)
        (Nat.succ_ne_zero i)
    rw [Function.comp_apply, Nat.succ_eq_add_one, shifted]
    exact Function.update_of_ne other a r.mem

theorem Ok.pushFront (ok : r.Ok) (room : r.count < r.size) : (r.pushFront a).Ok :=
  ⟨ok.before_first.1, room⟩

theorem Ok.contents_popFront (ok : r.Ok) (some : 0 < r.count) :
    r.contents = r.mem r.first :: r.popFront.contents := by
  obtain ⟨n, whole⟩ := Nat.exists_eq_add_of_le' some
  have less : r.popFront.count = n := by rw [popFront, whole, Nat.add_sub_cancel]
  have shifted : ∀ i, r.popFront.slot i = r.slot (i + 1) := by
    intro i
    rw [slot, slot, show r.popFront.first = (r.first + 1) % r.size from rfl,
      show r.popFront.size = r.size from rfl, Nat.mod_add_mod, Nat.add_assoc, Nat.add_comm 1 i]
  rw [contents, contents, less, whole, List.range_succ_eq_map, List.map_cons, List.map_map]
  congr 1
  · rw [slot, Nat.add_zero, Nat.mod_eq_of_lt ok.first_lt]
  · refine List.map_congr_left fun i _ => ?_
    rw [shifted]
    rfl

theorem Ok.popFront (ok : r.Ok) : r.popFront.Ok :=
  ⟨Nat.mod_lt _ ok.size_pos, (Nat.sub_le _ _).trans ok.count_le⟩

end Buffer

end Deque
