import Mathlib

/-!
# Searches that keep the best so far

A loop over candidates that stops as soon as a condition fails (`forWhile`), and loops of
such loops.  Where the body does nothing once the condition fails, stopping makes no
difference (`forWhile_eq_foldl`).

A candidate that qualifies is taken if it costs less than what is kept.  In the end what
was kept at the start is still there, and no candidate beats it, or a cheapest one of all
the candidates that qualify is (`foldl_keep_cases`).
-/

namespace KeepBest

universe u v w

variable {σ : Type u} {α : Type v} {β : Type w}

/-! ## Loops -/

/-- `for (x in xs; go s) s = body s x`. -/
def forWhile (go : σ → Bool) (body : σ → α → σ) : List α → σ → σ
  | [], s => s
  | x :: xs, s => if go s then forWhile go body xs (body s x) else s

variable {go : σ → Bool}

/-- A loop whose condition fails at the start does nothing. -/
theorem forWhile_of_stopped {body : σ → α → σ} {s : σ} (stopped : go s = false) (xs : List α) :
    forWhile go body xs s = s := by
  cases xs with
  | nil => rfl
  | cons x xs => rw [forWhile, stopped, if_neg (by decide)]

theorem forWhile_eq_foldl {body : σ → α → σ} (idle : ∀ s x, go s = false → body s x = s)
    (xs : List α) (s : σ) : forWhile go body xs s = xs.foldl body s := by
  induction xs generalizing s with
  | nil => rfl
  | cons x xs ih =>
      rw [forWhile, List.foldl_cons]
      split_ifs with goes
      · exact ih (body s x)
      · have stopped := Bool.eq_false_iff.mpr goes
        rw [idle s x stopped, ← ih s, forWhile_of_stopped stopped]

theorem forWhile_append (body : σ → α → σ) (xs ys : List α) (s : σ) :
    forWhile go body (xs ++ ys) s = forWhile go body ys (forWhile go body xs s) := by
  induction xs generalizing s with
  | nil => rfl
  | cons x xs ih =>
      rw [List.cons_append, forWhile, forWhile]
      split_ifs with goes
      · exact ih (body s x)
      · exact (forWhile_of_stopped (Bool.eq_false_iff.mpr goes) ys).symm

theorem forWhile_map (body : σ → β → σ) (f : α → β) (xs : List α) (s : σ) :
    forWhile go body (xs.map f) s = forWhile go (fun s x => body s (f x)) xs s := by
  induction xs generalizing s with
  | nil => rfl
  | cons x xs ih => rw [List.map_cons, forWhile, forWhile, ih]

/-- A loop in a loop goes over the pairs. -/
theorem forWhile_forWhile (body : σ → α → β → σ) (xs : List α) (ys : List β) (s : σ) :
    forWhile go (fun s x => forWhile go (fun s y => body s x y) ys s) xs s =
      forWhile go (fun s p => body s p.1 p.2) (xs ×ˢ ys) s := by
  induction xs generalizing s with
  | nil => rfl
  | cons x xs ih =>
      rw [List.product_cons, forWhile_append, forWhile_map, forWhile, ← ih]
      split_ifs with goes
      · rfl
      · have stopped := Bool.eq_false_iff.mpr goes
        rw [forWhile_of_stopped stopped, forWhile_of_stopped stopped]

/-! ## The best -/

section Best

variable {γ : Type*} [LinearOrder γ] (qualifies : α → Prop) [DecidablePred qualifies]
  (cost : α → γ) (kept : σ → γ) (take : α → σ)

/-- One candidate. -/
def keep (s : σ) (x : α) : σ := if qualifies x ∧ cost x < kept s then take x else s

variable {cost take}

/-- **What is left of a search.** -/
theorem foldl_keep_cases (takes : ∀ x, kept (take x) = cost x) (xs : List α) (s : σ) :
    (xs.foldl (keep qualifies cost kept take) s = s ∧
        ∀ x ∈ xs, qualifies x → kept s ≤ cost x) ∨
      ∃ x ∈ xs, qualifies x ∧ xs.foldl (keep qualifies cost kept take) s = take x ∧
        cost x < kept s ∧ ∀ y ∈ xs, qualifies y → cost x ≤ cost y := by
  induction xs generalizing s with
  | nil => exact .inl ⟨rfl, fun x mem => absurd mem List.not_mem_nil⟩
  | cons x xs ih =>
      rw [List.foldl_cons]
      by_cases better : qualifies x ∧ cost x < kept s
      · have taken : keep qualifies cost kept take s x = take x := if_pos better
        rw [taken]
        right
        -- from here on `x` is what is kept: it stays, or a cheaper one takes its place
        rcases ih (take x) with ⟨same, least⟩ | ⟨y, mem, good, same, less, least⟩
        · rw [takes] at least
          refine ⟨x, List.mem_cons_self, better.1, same, better.2, fun z mem good => ?_⟩
          rcases List.mem_cons.mp mem with rfl | later
          · exact le_rfl
          · exact least z later good
        · rw [takes] at less
          refine ⟨y, List.mem_cons_of_mem x mem, good, same, less.trans better.2, ?_⟩
          intro z mem good
          rcases List.mem_cons.mp mem with rfl | later
          · exact less.le
          · exact least z later good
      · have passed : keep qualifies cost kept take s x = s := if_neg better
        rw [passed]
        rcases ih s with ⟨same, least⟩ | ⟨y, mem, good, same, less, least⟩
        · left
          refine ⟨same, fun z mem good => ?_⟩
          rcases List.mem_cons.mp mem with rfl | later
          · exact not_lt.mp fun cheaper => better ⟨good, cheaper⟩
          · exact least z later good
        · right
          refine ⟨y, List.mem_cons_of_mem x mem, good, same, less, fun z mem good => ?_⟩
          rcases List.mem_cons.mp mem with rfl | later
          · exact less.le.trans (not_lt.mp fun cheaper => better ⟨good, cheaper⟩)
          · exact least z later good

end Best

end KeepBest
