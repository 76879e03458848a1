import CannonCar.Foundation.Trajectory

/-!
# Running hulls

A value that is moved part of the way towards each input it is given: `x + k * (d - x)`
with a gain `k` between 0 and 1.  Whatever the gains are, it stays between the least and
the greatest of its first value and the inputs so far (`run_mem_hull`).

The gain may differ from step to step and depend on anything, so the rule is one for filters
that adapt their gain; all that is asked is an invariant of the filter's state under which
the gain stays between the two bounds.
-/

namespace Hull

open Trajectory

section Order

variable {α : Type*} [LinearOrder α]

/-- Between the least and the greatest of a value and a list of others. -/
def hull (x : α) (ds : List α) : Set α := Set.Icc (ds.foldl min x) (ds.foldl max x)

theorem foldl_min_mono (ds : List α) {x y : α} (le : x ≤ y) : ds.foldl min x ≤ ds.foldl min y := by
  induction ds generalizing x y with
  | nil => exact le
  | cons d ds ih => exact ih (min_le_min_right d le)

theorem foldl_max_mono (ds : List α) {x y : α} (le : x ≤ y) : ds.foldl max x ≤ ds.foldl max y := by
  induction ds generalizing x y with
  | nil => exact le
  | cons d ds ih => exact ih (max_le_max_right d le)

/-- A point between the first value and an input stays in the hull. -/
theorem hull_subset_of_between {x y d : α} (low : min x d ≤ y) (high : y ≤ max x d) (ds : List α) :
    hull y ds ⊆ Set.Icc (ds.foldl min (min x d)) (ds.foldl max (max x d)) :=
  Set.Icc_subset_Icc (foldl_min_mono ds low) (foldl_max_mono ds high)

end Order

variable {α : Type*} [Field α] [LinearOrder α] [IsStrictOrderedRing α]

/-- Part of the way from one point to another. -/
theorem between_of_gain {k : α} (nonneg : 0 ≤ k) (le_one : k ≤ 1) (x d : α) :
    min x d ≤ x + k * (d - x) ∧ x + k * (d - x) ≤ max x d :=
  (convex_Icc (min x d) (max x d)).add_smul_sub_mem ⟨min_le_left x d, le_max_left x d⟩
    ⟨min_le_right x d, le_max_right x d⟩ ⟨nonneg, le_one⟩

/-- **A value that each input moves part of the way towards it stays in the hull** of its
first value and the inputs. -/
theorem run_mem_hull {σ : Type*} {step : σ → α → σ} {I : σ → Prop}
    (value gain : σ → α) (keeps : ∀ s d, I s → I (step s d))
    (unit : ∀ s, I s → 0 ≤ gain s ∧ gain s ≤ 1)
    (moves : ∀ s d, I s → value (step s d) = value s + gain s * (d - value s))
    {s : σ} (start : I s) (ds : List α) :
    value (run step s ds) ∈ hull (value s) ds := by
  induction ds generalizing s with
  | nil => exact ⟨le_rfl, le_rfl⟩
  | cons d ds ih =>
      obtain ⟨nonneg, le_one⟩ := unit s start
      obtain ⟨low, high⟩ := between_of_gain nonneg le_one (value s) d
      rw [← moves s d start] at low high
      exact hull_subset_of_between low high ds (ih (keeps s d start))

end Hull
