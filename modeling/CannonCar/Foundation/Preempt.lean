import Mathlib

/-!
# A program that can be preempted

A task works through a list of actions while an environment of other tasks may change
the shared state between any two of them, before the first and after the last.  What
the environment may do is a preorder `rely` on states.

`Wp P Q as s` says that from `s` the actions `as` can be done under every such
interference, that `P` holds at every point of it, and that `Q` holds when they are
done and stays so as long as the task does nothing more.  The predicate is closed
under the environment and under the task's own steps (`Wp.of_rely`, `Wp.next`), so it
is an invariant of the whole system as soon as it holds whenever the task is given a
new list; `wp_append` and `wp_invariant` are the rules to establish it for a list.
-/

namespace Preempt

universe u v

/-- What a task's actions do, and what the others may do in between. -/
structure Setting (σ : Type u) (α : Type v) where
  act : α → σ → σ
  rely : σ → σ → Prop
  refl : ∀ s, rely s s
  trans : ∀ {s t r}, rely s t → rely t r → rely s r

variable {σ : Type u} {α : Type v} {S : Setting σ α} {P Q R : σ → Prop}

/-- The actions can be done under interference, with `P` throughout and `Q` at the
end. -/
def Wp (S : Setting σ α) (P Q : σ → Prop) : List α → σ → Prop
  | [], s => ∀ t, S.rely s t → P t ∧ Q t
  | a :: as, s => ∀ t, S.rely s t → P t ∧ Wp S P Q as (S.act a t)

/-- The environment cannot break it. -/
theorem Wp.of_rely {as : List α} {s t : σ} (h : Wp S P Q as s) (env : S.rely s t) :
    Wp S P Q as t := by
  cases as with
  | nil => exact fun r later => h r (S.trans env later)
  | cons a as => exact fun r later => h r (S.trans env later)

/-- The task's next action does not break it. -/
theorem Wp.next {a : α} {as : List α} {s : σ} (h : Wp S P Q (a :: as) s) :
    Wp S P Q as (S.act a s) :=
  (h s (S.refl s)).2

theorem Wp.now {as : List α} {s : σ} (h : Wp S P Q as s) : P s := by
  cases as with
  | nil => exact (h s (S.refl s)).1
  | cons a as => exact (h s (S.refl s)).1

theorem Wp.done {s : σ} (h : Wp S P Q [] s) : Q s := (h s (S.refl s)).2

/-- What the first list ends in is what the second may start from. -/
theorem wp_append {as bs : List α} (then_ : ∀ s, Q s → Wp S P R bs s) {s : σ}
    (h : Wp S P Q as s) : Wp S P R (as ++ bs) s := by
  induction as generalizing s with
  | nil => exact then_ s h.done
  | cons a as ih =>
      intro t env
      obtain ⟨now, rest⟩ := h t env
      exact ⟨now, ih rest⟩

/-- A property that the environment and every action of the list keep holds
throughout. -/
theorem wp_invariant {I : σ → Prop} (stable : ∀ s t, I s → S.rely s t → I t)
    (safe : ∀ s, I s → P s) {as : List α} (keeps : ∀ a ∈ as, ∀ s, I s → I (S.act a s)) {s : σ}
    (start : I s) : Wp S P I as s := by
  induction as generalizing s with
  | nil => exact fun t env => ⟨safe t (stable s t start env), stable s t start env⟩
  | cons a as ih =>
      intro t env
      have here := stable s t start env
      exact ⟨safe t here, ih (fun b hb => keeps b (List.mem_cons_of_mem a hb))
        (keeps a List.mem_cons_self t here)⟩

theorem Wp.mono {as : List α} {s : σ} (h : Wp S P Q as s) (post : ∀ s, Q s → R s) :
    Wp S P R as s := by
  induction as generalizing s with
  | nil => exact fun t env => ⟨(h t env).1, post t (h t env).2⟩
  | cons a as ih => exact fun t env => ⟨(h t env).1, ih (h t env).2⟩

end Preempt
