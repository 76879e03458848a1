import CannonCar.Foundation.Trajectory

/-!
# Latches

A latch remembers the first thing that triggered it until it is reset.  It is given
by a reset condition and a partial trigger on its inputs; the `exclusive` field says
that no input both resets and triggers, which is what makes a reset always leave the
latch empty.

The state of a latch is a function of its history, and `stateAt_eq_trigger` says which:
look back to the last reset, and take the first trigger since.
-/

namespace Foundation

open Trajectory

universe u v

/-- A latch over inputs `ι` that records values of `α`. -/
structure Latch (ι : Type u) (α : Type v) where
  /-- The input empties the latch. -/
  reset : ι → Prop
  /-- What the input makes an empty latch record. -/
  trigger : ι → Option α
  /-- No input does both. -/
  exclusive : ∀ u, reset u → trigger u = none

namespace Latch

variable {ι : Type u} {α : Type v} (L : Latch ι α) [DecidablePred L.reset]

/-- One input: empty the latch if the input resets it, then let the input trigger it
if it is empty. -/
def step (s : Option α) (u : ι) : Option α :=
  (if L.reset u then none else s).or (L.trigger u)

theorem step_none (u : ι) : L.step none u = L.trigger u := by
  simp [step]

theorem step_reset {u : ι} (h : L.reset u) (s : Option α) : L.step s u = none := by
  simp [step, h, L.exclusive u h]

theorem step_some {u : ι} (h : ¬ L.reset u) (a : α) : L.step (some a) u = some a := by
  simp [step, h]

/-- The latch after `t` inputs, starting empty. -/
def stateAt (inputs : ℕ → ι) (t : ℕ) : Option α := orbit L.step none inputs t

theorem stateAt_succ (inputs : ℕ → ι) (t : ℕ) :
    L.stateAt inputs (t + 1) = L.step (L.stateAt inputs t) (inputs t) := rfl

/-- A full latch keeps its value until the next reset. -/
theorem stateAt_hold {inputs : ℕ → ι} {t : ℕ} {a : α} (full : L.stateAt inputs t = some a)
    (k : ℕ) (quiet : ∀ i, t ≤ i → i < t + k → ¬ L.reset (inputs i)) :
    L.stateAt inputs (t + k) = some a := by
  induction k with
  | zero => exact full
  | succ k ih =>
      have before : L.stateAt inputs (t + k) = some a :=
        ih fun i hi hk => quiet i hi (by omega)
      rw [← Nat.add_assoc, stateAt_succ, before]
      exact L.step_some (quiet (t + k) (by omega) (by omega)) a

/-! ## The state as a function of the history -/

/-- `r` is the first input after the last reset before `t`, or the start. -/
structure Since (inputs : ℕ → ι) (r t : ℕ) : Prop where
  le : r ≤ t
  /-- The input just before `r`, if there is one, is a reset. -/
  after : r = 0 ∨ L.reset (inputs (r - 1))
  /-- There is no reset from `r` on. -/
  quiet : ∀ i, r ≤ i → i < t → ¬ L.reset (inputs i)

omit [DecidablePred L.reset] in
/-- Every point of a run has a last reset or a start to look back to. -/
theorem exists_since (inputs : ℕ → ι) (t : ℕ) : ∃ r, L.Since inputs r t := by
  induction t with
  | zero => exact ⟨0, le_rfl, Or.inl rfl, fun i _ hi => absurd hi (Nat.not_lt_zero i)⟩
  | succ t ih =>
      obtain ⟨r, since⟩ := ih
      by_cases now : L.reset (inputs t)
      · exact ⟨t + 1, le_rfl, Or.inr now, fun i hle hlt => absurd hlt (by omega)⟩
      · refine ⟨r, by have := since.le; omega, since.after, fun i hle hlt => ?_⟩
        rcases Nat.lt_succ_iff_lt_or_eq.mp hlt with earlier | rfl
        · exact since.quiet i hle earlier
        · exact now

/-- Right after a reset, and at the start, the latch is empty. -/
theorem stateAt_since {inputs : ℕ → ι} {r t : ℕ} (since : L.Since inputs r t) :
    L.stateAt inputs r = none := by
  rcases since.after with rfl | hreset
  · rfl
  · cases r with
    | zero => rfl
    | succ r => exact L.step_reset hreset _

/-- Without a trigger since the last reset the latch is still empty. -/
theorem stateAt_eq_none {inputs : ℕ → ι} {r t : ℕ} (since : L.Since inputs r t) :
    ∀ j, r ≤ j → (∀ i, r ≤ i → i < j → L.trigger (inputs i) = none) →
      L.stateAt inputs j = none := by
  intro j hj silent
  induction j, hj using Nat.le_induction with
  | base => exact L.stateAt_since since
  | succ j hj ih =>
      rw [stateAt_succ, ih fun i hi hij => silent i hi (by omega), step_none]
      exact silent j hj (by omega)

/-- **The history of a latch.**  The first trigger since the last reset is what the
latch holds. -/
theorem stateAt_eq_trigger {inputs : ℕ → ι} {r j t : ℕ} (since : L.Since inputs r t)
    (hj : r ≤ j) (hjt : j < t) (first : ∀ i, r ≤ i → i < j → L.trigger (inputs i) = none)
    {a : α} (now : L.trigger (inputs j) = some a) : L.stateAt inputs t = some a := by
  have caught : L.stateAt inputs (j + 1) = some a := by
    rw [stateAt_succ, L.stateAt_eq_none since j hj first, step_none, now]
  have rest := L.stateAt_hold caught (t - (j + 1)) fun i hi hit =>
    since.quiet i (by omega) (by omega)
  rwa [Nat.add_sub_cancel' hjt] at rest

/-- A latch never passes from one value to another without being empty in
between. -/
theorem exists_empty_between {inputs : ℕ → ι} {t t' : ℕ} {a b : α}
    (before : L.stateAt inputs t = some a) (after : L.stateAt inputs t' = some b)
    (lt : t < t') (ne : a ≠ b) : ∃ m, t < m ∧ m < t' ∧ L.stateAt inputs m = none := by
  by_contra never
  -- Then no input in between resets the latch, so it still holds `a`.
  have quiet : ∀ i, t ≤ i → i < t + (t' - t) → ¬ L.reset (inputs i) := by
    intro i hi hit hreset
    have empty : L.stateAt inputs (i + 1) = none := L.step_reset hreset _
    rcases Nat.lt_or_ge (i + 1) t' with inside | last
    · exact never ⟨i + 1, by omega, inside, empty⟩
    · rw [show t' = i + 1 by omega, empty] at after
      cases after
  have still := L.stateAt_hold before (t' - t) quiet
  rw [Nat.add_sub_cancel' lt.le, after] at still
  exact ne (Option.some.inj still).symm

end Latch

end Foundation
