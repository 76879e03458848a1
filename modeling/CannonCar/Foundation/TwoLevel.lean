import CannonCar.Foundation.Bitmap

/-!
# Two-level bitmaps

A set of numbers below `w * w` is kept in a table of `w` words of `w` bits, with one more
word, the group, that says which words of the table are not zero.  Putting a number in and
taking it out touch one word of the table and one bit of the group, and the least number
of the set is found with two searches for the lowest one of a word, whatever the size of
the set (`Represents.isLeast_least`).

The search for the lowest one of a word is a parameter (`FindsLowest`), since it is usually a
table.  `Represents` has the group as a field of its own and not as a consequence: it is the
part that is forgotten first when a word becomes zero, and the search is wrong without it.
-/

namespace TwoLevel

open Bitmap

/-- The table and the group over it. -/
structure Table (w : ℕ) where
  grp : BitVec w
  tbl : ℕ → BitVec w

variable {w : ℕ}

namespace Table

/-- No number. -/
def empty : Table w := ⟨0#w, fun _ => 0#w⟩

/-- Put `p` in. -/
def insert (p : ℕ) (t : Table w) : Table w :=
  ⟨t.grp ||| 1#w <<< (p / w),
    Function.update t.tbl (p / w) (t.tbl (p / w) ||| 1#w <<< (p % w))⟩

/-- Take `p` out; the group loses the word when it becomes zero. -/
def erase (p : ℕ) (t : Table w) : Table w :=
  let row := t.tbl (p / w) &&& ~~~(1#w <<< (p % w))
  ⟨if row = 0 then t.grp &&& ~~~(1#w <<< (p / w)) else t.grp,
    Function.update t.tbl (p / w) row⟩

/-- The lowest one of the word that the lowest one of the group stands for. -/
def least (lowest : BitVec w → ℕ) (t : Table w) : ℕ :=
  lowest t.grp * w + lowest (t.tbl (lowest t.grp))

theorem insert_tbl_self (p : ℕ) (t : Table w) :
    (t.insert p).tbl (p / w) = t.tbl (p / w) ||| 1#w <<< (p % w) :=
  Function.update_self ..

theorem insert_tbl_of_ne {p y : ℕ} (other : y ≠ p / w) (t : Table w) :
    (t.insert p).tbl y = t.tbl y :=
  Function.update_of_ne other ..

theorem erase_tbl_self (p : ℕ) (t : Table w) :
    (t.erase p).tbl (p / w) = t.tbl (p / w) &&& ~~~(1#w <<< (p % w)) :=
  Function.update_self ..

theorem erase_tbl_of_ne {p y : ℕ} (other : y ≠ p / w) (t : Table w) :
    (t.erase p).tbl y = t.tbl y :=
  Function.update_of_ne other ..

end Table

/-- The ones of the table are the numbers of the set, and the group marks the words that
are not zero. -/
structure Represents (t : Table w) (s : Set ℕ) : Prop where
  rows : ∀ y, Bitmap.Represents (t.tbl y) {x | x < w ∧ y * w + x ∈ s}
  group : Bitmap.Represents t.grp {y | t.tbl y ≠ 0#w}
  bounded : ∀ p ∈ s, p < w * w

/-- `lowest` finds the lowest one of a word that has one. -/
def FindsLowest (lowest : BitVec w → ℕ) : Prop :=
  ∀ x : BitVec w, x ≠ 0#w → IsLeast {i | x.getLsbD i = true} (lowest x)

variable {t : Table w} {s : Set ℕ} {p : ℕ}

theorem represents_empty : Represents (Table.empty : Table w) ∅ where
  rows y := by
    have none : {x | x < w ∧ y * w + x ∈ (∅ : Set ℕ)} = ∅ := by ext x; simp
    rw [none]
    exact represents_zero
  group := by
    have none : {y | (Table.empty : Table w).tbl y ≠ 0#w} = ∅ := by ext y; simp [Table.empty]
    rw [none]
    exact represents_zero
  bounded _ mem := absurd mem (Set.notMem_empty _)

/-- A word is zero when its set is empty. -/
theorem row_eq_zero_iff (stands : Represents t s) (y : ℕ) :
    t.tbl y = 0#w ↔ ∀ x < w, y * w + x ∉ s := by
  constructor
  · intro zero x lt mem
    have one := (stands.rows y x).mpr ⟨lt, mem⟩
    rw [zero, BitVec.getLsbD_zero] at one
    exact absurd one (by simp)
  · intro none
    ext x lt
    rw [BitVec.getElem_zero, ← BitVec.getLsbD_eq_getElem lt, Bool.eq_false_iff]
    exact fun one => none x lt ((stands.rows y x).mp one).2

/-- The set with `p` in it or not, as `P` says. -/
def adjust (p : ℕ) (P : Prop) (s : Set ℕ) : Set ℕ := {q | q = p ∧ P ∨ q ≠ p ∧ q ∈ s}

theorem adjust_of {P : Prop} (holds : P) (p : ℕ) (s : Set ℕ) : adjust p P s = insert p s := by
  ext q
  by_cases same : q = p <;> simp [adjust, same, holds]

theorem adjust_of_not {P : Prop} (fails : ¬ P) (p : ℕ) (s : Set ℕ) : adjust p P s = s \ {p} := by
  ext q
  by_cases same : q = p <;> simp [adjust, same, fails]

theorem adjust_eq_self {P : Prop} (agrees : p ∈ s ↔ P) : adjust p P s = s := by
  ext q
  by_cases same : q = p
  · simp [adjust, same, agrees]
  · simp [adjust, same]

section Place

variable (positive : 0 < w) (inside : p < w * w)

include positive in
/-- The words of a number that differs from `p` in its word. -/
theorem mul_add_ne {y x : ℕ} (lt : x < w) (other : y ≠ p / w ∨ x ≠ p % w) : y * w + x ≠ p := by
  rintro rfl
  rcases other with row | column
  · exact row (by rw [Nat.mul_comm, Nat.mul_add_div positive, Nat.div_eq_of_lt lt, Nat.add_zero])
  · exact column (by rw [Nat.mul_comm, Nat.mul_add_mod, Nat.mod_eq_of_lt lt])

include positive inside

theorem div_lt : p / w < w := (Nat.div_lt_iff_lt_mul positive).mpr inside

theorem Represents.insert (stands : Represents t s) :
    Represents (t.insert p) (Insert.insert p s) := by
  have column : p % w < w := Nat.mod_lt p positive
  have split : p / w * w + p % w = p := Nat.div_add_mod' p w
  constructor
  · intro y
    by_cases row : y = p / w
    · subst row
      have new : {x | x < w ∧ p / w * w + x ∈ Insert.insert p s} =
          Insert.insert (p % w) {x | x < w ∧ p / w * w + x ∈ s} := by
        ext x
        simp only [Set.mem_ofPred_eq, Set.mem_insert_iff]
        constructor
        · rintro ⟨lt, same | mem⟩
          · exact Or.inl (by omega)
          · exact Or.inr ⟨lt, mem⟩
        · rintro (rfl | ⟨lt, mem⟩)
          · exact ⟨column, Or.inl split⟩
          · exact ⟨lt, Or.inr mem⟩
      rw [Table.insert_tbl_self, new]
      exact (stands.rows _).insert column
    · have same : {x | x < w ∧ y * w + x ∈ Insert.insert p s} = {x | x < w ∧ y * w + x ∈ s} := by
        ext x
        simp only [Set.mem_ofPred_eq, Set.mem_insert_iff]
        refine and_congr_right fun lt => or_iff_right ?_
        exact mul_add_ne positive lt (Or.inl row)
      rw [Table.insert_tbl_of_ne row, same]
      exact stands.rows y
  · have new : {y | (t.insert p).tbl y ≠ 0#w} = Insert.insert (p / w) {y | t.tbl y ≠ 0#w} := by
      ext y
      simp only [Set.mem_ofPred_eq, Set.mem_insert_iff]
      by_cases row : y = p / w
      · subst row
        rw [Table.insert_tbl_self]
        refine iff_of_true (fun zero => ?_) (Or.inl rfl)
        have one : (t.tbl (p / w) ||| 1#w <<< (p % w)).getLsbD (p % w) = true := by
          rw [BitVec.getLsbD_or, getLsbD_oneBit column, decide_eq_true rfl, Bool.or_true]
        rw [zero, BitVec.getLsbD_zero] at one
        exact absurd one (by simp)
      · rw [Table.insert_tbl_of_ne row]
        exact (or_iff_right row).symm
    rw [new]
    exact stands.group.insert (div_lt positive inside)
  · rintro q (rfl | mem)
    · exact inside
    · exact stands.bounded q mem

theorem Represents.erase (stands : Represents t s) : Represents (t.erase p) (s \ {p}) := by
  have column : p % w < w := Nat.mod_lt p positive
  have split : p / w * w + p % w = p := Nat.div_add_mod' p w
  have rows : ∀ y, Bitmap.Represents ((t.erase p).tbl y) {x | x < w ∧ y * w + x ∈ s \ {p}} := by
    intro y
    by_cases row : y = p / w
    · subst row
      have less : {x | x < w ∧ p / w * w + x ∈ s \ {p}} =
          {x | x < w ∧ p / w * w + x ∈ s} \ {p % w} := by
        ext x
        simp only [Set.mem_ofPred_eq, Set.mem_sdiff, Set.mem_singleton_iff]
        constructor
        · rintro ⟨lt, mem, other⟩
          exact ⟨⟨lt, mem⟩, fun same => other (by rw [same, split])⟩
        · rintro ⟨⟨lt, mem⟩, other⟩
          exact ⟨lt, mem, mul_add_ne positive lt (Or.inr other)⟩
      rw [Table.erase_tbl_self, less]
      exact (stands.rows _).erase column
    · have same : {x | x < w ∧ y * w + x ∈ s \ {p}} = {x | x < w ∧ y * w + x ∈ s} := by
        ext x
        simp only [Set.mem_ofPred_eq, Set.mem_sdiff, Set.mem_singleton_iff]
        refine and_congr_right fun lt => and_iff_left ?_
        exact mul_add_ne positive lt (Or.inl row)
      rw [Table.erase_tbl_of_ne row, same]
      exact stands.rows y
  refine ⟨rows, ?_, fun q mem => stands.bounded q mem.1⟩
  have nonzero : ∀ y, y ≠ p / w → ((t.erase p).tbl y ≠ 0#w ↔ t.tbl y ≠ 0#w) := by
    intro y other
    rw [Table.erase_tbl_of_ne other]
  have here := Table.erase_tbl_self p t
  by_cases zero : t.tbl (p / w) &&& ~~~(1#w <<< (p % w)) = 0#w
  · have less : {y | (t.erase p).tbl y ≠ 0#w} = {y | t.tbl y ≠ 0#w} \ {p / w} := by
      ext y
      by_cases row : y = p / w
      · subst row
        simp [here, zero]
      · simp [nonzero y row, row]
    have grp : (t.erase p).grp = t.grp &&& ~~~(1#w <<< (p / w)) := if_pos zero
    rw [less, grp]
    exact stands.group.erase (div_lt positive inside)
  · have same : {y | (t.erase p).tbl y ≠ 0#w} = {y | t.tbl y ≠ 0#w} := by
      ext y
      by_cases row : y = p / w
      · subst row
        have before : t.tbl (p / w) ≠ 0#w := by
          intro none
          rw [none, BitVec.zero_and] at zero
          exact zero rfl
        simp [here, zero, before]
      · simp [nonzero y row]
    have grp : (t.erase p).grp = t.grp := if_neg zero
    rw [same, grp]
    exact stands.group

end Place

/-- The group is zero when the set is empty. -/
theorem Represents.grp_eq_zero_iff (positive : 0 < w) (stands : Represents t s) :
    t.grp = 0#w ↔ s = ∅ := by
  constructor
  · intro zero
    rw [Set.eq_empty_iff_forall_notMem]
    intro p mem
    have row : t.tbl (p / w) ≠ 0#w := fun none => by
      refine (row_eq_zero_iff stands (p / w)).mp none (p % w) (Nat.mod_lt p positive) ?_
      rwa [Nat.div_add_mod']
    have one := (stands.group (p / w)).mpr row
    rw [zero, BitVec.getLsbD_zero] at one
    exact absurd one (by simp)
  · rintro rfl
    ext y lt
    rw [BitVec.getElem_zero, ← BitVec.getLsbD_eq_getElem lt, Bool.eq_false_iff]
    intro one
    refine (stands.group y).mp one ?_
    rw [row_eq_zero_iff stands]
    exact fun x _ => Set.notMem_empty _

/-- **Two searches find the least number of the set.** -/
theorem Represents.isLeast_least {lowest : BitVec w → ℕ} (finds : FindsLowest lowest)
    (stands : Represents t s) (positive : 0 < w) (nonempty : s.Nonempty) :
    IsLeast s (t.least lowest) := by
  have group : t.grp ≠ 0#w := fun zero =>
    nonempty.ne_empty ((stands.grp_eq_zero_iff positive).mp zero)
  obtain ⟨marked, firstRow⟩ := finds t.grp group
  have row : t.tbl (lowest t.grp) ≠ 0#w := (stands.group _).mp marked
  obtain ⟨one, firstColumn⟩ := finds _ row
  refine ⟨((stands.rows _ _).mp one).2, ?_⟩
  intro p mem
  have split : p / w * w + p % w = p := Nat.div_add_mod' p w
  have column : p % w < w := Nat.mod_lt p positive
  have bit : (t.tbl (p / w)).getLsbD (p % w) = true :=
    (stands.rows _ _).mpr ⟨column, by rwa [split]⟩
  have rowMarked : t.grp.getLsbD (p / w) = true := (stands.group _).mpr fun zero => by
    rw [zero, BitVec.getLsbD_zero] at bit
    exact absurd bit (by simp)
  have rowLe : lowest t.grp ≤ p / w := firstRow rowMarked
  rw [Table.least, ← split]
  rcases rowLe.lt_or_eq with before | same
  · have within : lowest (t.tbl (lowest t.grp)) < w := ((stands.rows _ _).mp one).1
    calc lowest t.grp * w + lowest (t.tbl (lowest t.grp))
        ≤ lowest t.grp * w + w := Nat.add_le_add_left within.le _
      _ = (lowest t.grp + 1) * w := (Nat.succ_mul _ _).symm
      _ ≤ p / w * w := Nat.mul_le_mul_right w before
      _ ≤ p / w * w + p % w := Nat.le_add_right _ _
  · rw [← same] at bit ⊢
    exact Nat.add_le_add_left (firstColumn bit) _

end TwoLevel
