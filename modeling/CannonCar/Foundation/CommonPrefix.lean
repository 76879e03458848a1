import Mathlib.Data.List.GetD
import Mathlib.Data.List.Infix
import Mathlib.Order.Bounds.Basic
import Mathlib.Tactic.Common

/-!
# The characters words begin with in common

`Shared words k` says that the words have their first `k` characters in common; what is
shared by all words is shared up to any earlier place.

Words that end where a terminator is read, and do not contain it, are compared character by
character without their lengths (`shared_cons_iff`): where a word ends early, its terminator
differs from what the other has there.

Reading a word at an index behind its end gives the terminator (`getD`), which is what a loop
over strings in memory sees.  The one place behind the end that is read so is the terminator
itself; nothing here speaks of those behind it.
-/

namespace CommonPrefix

universe u

variable {α : Type u} {words : List (List α)} {a w : List α} {j k : ℕ}

/-- The words have a prefix of `k` characters in common. -/
def Shared (words : List (List α)) (k : ℕ) : Prop :=
  ∃ p : List α, p.length = k ∧ ∀ w ∈ words, p <+: w

theorem shared_zero (words : List (List α)) : Shared words 0 :=
  ⟨[], rfl, fun _ _ => List.nil_prefix⟩

theorem Shared.mono (shared : Shared words k) (le : j ≤ k) : Shared words j := by
  obtain ⟨p, length, begins⟩ := shared
  refine ⟨p.take j, ?_, fun w mem => (List.take_prefix j p).trans (begins w mem)⟩
  rw [List.length_take, length, Nat.min_eq_left le]

theorem shared_nil [Inhabited α] (k : ℕ) : Shared ([] : List (List α)) k :=
  ⟨List.replicate k default, List.length_replicate, fun _ mem => absurd mem List.not_mem_nil⟩

/-- What is shared by some words is shared by fewer. -/
theorem Shared.subset {fewer : List (List α)} (shared : Shared words k)
    (sub : ∀ w ∈ fewer, w ∈ words) : Shared fewer k := by
  obtain ⟨p, length, begins⟩ := shared
  exact ⟨p, length, fun w mem => begins w (sub w mem)⟩

/-- What is shared is no longer than a word. -/
theorem Shared.le_length (shared : Shared words k) (mem : w ∈ words) : k ≤ w.length := by
  obtain ⟨p, rfl, begins⟩ := shared
  exact (begins w mem).length_le

/-- Two words agree on the characters they share. -/
theorem Shared.getD_eq (shared : Shared words k) {v : List α} (memW : w ∈ words)
    (memV : v ∈ words) {i : ℕ} (lt : i < k) (z : α) : w.getD i z = v.getD i z := by
  obtain ⟨p, rfl, begins⟩ := shared
  obtain ⟨restW, rfl⟩ := begins w memW
  obtain ⟨restV, rfl⟩ := begins v memV
  rw [List.getD_append _ _ _ _ lt, List.getD_append _ _ _ _ lt]

/-- A word in which the terminator does not occur is as long as the characters on which
another one agrees with it. -/
theorem length_le_of_getD {z : α} (proper : z ∉ a) (le : k ≤ a.length)
    (agree : ∀ i < k, w.getD i z = a.getD i z) : k ≤ w.length := by
  by_contra short
  have lt : w.length < k := not_le.mp short
  have inside : w.length < a.length := lt.trans_le le
  have terminator := agree w.length lt
  rw [List.getD_eq_default _ _ le_rfl, List.getD_eq_getElem _ _ inside] at terminator
  exact proper (terminator ▸ List.getElem_mem inside)

/-- **Shared characters, compared one by one** with those of the first word. -/
theorem shared_cons_iff {z : α} {words : List (List α)} (proper : z ∉ a) :
    Shared (a :: words) k ↔
      k ≤ a.length ∧ ∀ w ∈ words, ∀ i < k, w.getD i z = a.getD i z := by
  constructor
  · intro shared
    refine ⟨shared.le_length List.mem_cons_self, fun w mem i lt => ?_⟩
    exact shared.getD_eq (List.mem_cons_of_mem a mem) List.mem_cons_self lt z
  · rintro ⟨le, agree⟩
    refine ⟨a.take k, List.length_take_of_le le, fun w mem => ?_⟩
    rcases List.mem_cons.mp mem with rfl | later
    · exact List.take_prefix k w
    · have long := length_le_of_getD proper le (agree w later)
      rw [List.prefix_iff_eq_take, List.length_take_of_le le]
      apply List.ext_getElem
      · rw [List.length_take_of_le le, List.length_take_of_le long]
      · intro i inA inW
        have lt : i < k := by rwa [List.length_take_of_le le] at inA
        have same := agree w later i lt
        rw [List.getD_eq_getElem _ _ (lt.trans_le long),
          List.getD_eq_getElem _ _ (lt.trans_le le)] at same
        rw [List.getElem_take, List.getElem_take, same]

/-- The greatest number with one property below the greatest with another. -/
theorem isGreatest_and {P Q : ℕ → Prop} {n m r : ℕ} (down : ∀ j k, j ≤ k → P k → P j)
    (outer : IsGreatest {k | k ≤ n ∧ P k} m) (inner : IsGreatest {k | k ≤ m ∧ Q k} r) :
    IsGreatest {k | k ≤ n ∧ P k ∧ Q k} r := by
  obtain ⟨⟨le, holds⟩, most⟩ := outer
  obtain ⟨⟨le', holds'⟩, most'⟩ := inner
  refine ⟨⟨le'.trans le, down r m le' holds, holds'⟩, ?_⟩
  rintro k ⟨below, first, second⟩
  exact most' ⟨most ⟨below, first⟩, second⟩

end CommonPrefix
