import Mathlib

/-!
# Runs of input-driven systems

A system is a step function `step : σ → ι → σ`; what varies from run to run is the
sequence of inputs.  `run` consumes a finite sequence, `orbit` reads an infinite
one, and `orbit_eq_run` says that the states of the second are those of the finite
prefixes of the first.

`outputs` collects what a system puts out on the way, and `outputs_flatMap_iff` carries
what it answers to one message over to streams of messages.  `conserved_of_guarded` is for
systems that things pass through in order.

Six rules reduce a statement about whole runs to one about a single step:

* `run_invariant`, `orbit_invariant` — a property kept by every step holds along
  every run that starts in it;
* `run_invariant_of_guarded` — a property kept by the steps that meet a condition
  holds along every run all of whose steps meet it;
* `throughout_iff_guarded` — where a step keeps the property exactly when it meets
  the condition, the property holds throughout a run exactly when all of the run's
  steps meet the condition;
* `run_iff_guarded` — the same for the last state alone, where a property once lost is
  lost for good;
* `run_related` — two systems whose steps keep a relation stay related;
* `guarded_iff_guarded` — what guards a run can be told from a related run.
-/

namespace Trajectory

universe u v w x

variable {σ : Type u} {τ : Type w} {ι : Type v} {ω : Type x}

/-- The state a finite sequence of inputs leads to. -/
def run (step : σ → ι → σ) (s : σ) (us : List ι) : σ := us.foldl step s

@[simp] theorem run_nil (step : σ → ι → σ) (s : σ) : run step s [] = s := rfl

@[simp] theorem run_cons (step : σ → ι → σ) (s : σ) (a : ι) (us : List ι) :
    run step s (a :: us) = run step (step s a) us := rfl

theorem run_append (step : σ → ι → σ) (s : σ) (us vs : List ι) :
    run step s (us ++ vs) = run step (run step s us) vs :=
  List.foldl_append

theorem run_concat (step : σ → ι → σ) (s : σ) (us : List ι) (a : ι) :
    run step s (us ++ [a]) = step (run step s us) a := by
  rw [run_append, run_cons, run_nil]

/-- The state after `t` inputs of an infinite sequence. -/
def orbit (step : σ → ι → σ) (s : σ) (inputs : ℕ → ι) : ℕ → σ
  | 0 => s
  | t + 1 => step (orbit step s inputs t) (inputs t)

theorem orbit_succ (step : σ → ι → σ) (s : σ) (inputs : ℕ → ι) (t : ℕ) :
    orbit step s inputs (t + 1) = step (orbit step s inputs t) (inputs t) := rfl

/-- An infinite run passes through the end states of its finite prefixes. -/
theorem orbit_eq_run (step : σ → ι → σ) (s : σ) (inputs : ℕ → ι) (t : ℕ) :
    orbit step s inputs t = run step s ((List.range t).map inputs) := by
  induction t with
  | zero => rfl
  | succ t ih =>
      rw [orbit_succ, ih, List.range_succ, List.map_append, List.map_singleton, run_concat]

/-! ## Invariants -/

/-- A property kept by every step holds at the end of every run. -/
theorem run_invariant {step : σ → ι → σ} {I : σ → Prop}
    (keeps : ∀ s a, I s → I (step s a)) {s : σ} (start : I s) (us : List ι) :
    I (run step s us) := by
  induction us generalizing s with
  | nil => exact start
  | cons a us ih => exact ih (keeps s a start)

/-- A property kept by every step holds all along an infinite run. -/
theorem orbit_invariant {step : σ → ι → σ} {I : σ → Prop}
    (keeps : ∀ s a, I s → I (step s a)) {s : σ} (start : I s) (inputs : ℕ → ι) (t : ℕ) :
    I (orbit step s inputs t) := by
  rw [orbit_eq_run]
  exact run_invariant keeps start _

/-! ## Guarded runs -/

/-- Every step of the run meets the condition `C` on the state it is taken in and
the input it consumes. -/
def Guarded (C : σ → ι → Prop) (step : σ → ι → σ) : σ → List ι → Prop
  | _, [] => True
  | s, a :: us => C s a ∧ Guarded C step (step s a) us

instance decidableGuarded (C : σ → ι → Prop) [∀ s a, Decidable (C s a)] (step : σ → ι → σ) :
    ∀ s us, Decidable (Guarded C step s us)
  | _, [] => isTrue trivial
  | s, a :: us =>
      have := decidableGuarded C step (step s a) us
      inferInstanceAs (Decidable (C s a ∧ Guarded C step (step s a) us))

/-- `P` holds in every state the run passes through, the first one included. -/
def Throughout (P : σ → Prop) (step : σ → ι → σ) : σ → List ι → Prop
  | s, [] => P s
  | s, a :: us => P s ∧ Throughout P step (step s a) us

/-- What holds throughout a run holds at its end. -/
theorem Throughout.last {step : σ → ι → σ} {P : σ → Prop} {s : σ} {us : List ι}
    (throughout : Throughout P step s us) : P (run step s us) := by
  induction us generalizing s with
  | nil => exact throughout
  | cons a us ih => exact ih throughout.2

theorem Throughout.start {step : σ → ι → σ} {P : σ → Prop} {s : σ} {us : List ι}
    (throughout : Throughout P step s us) : P s := by
  cases us with
  | nil => exact throughout
  | cons a us => exact throughout.1

theorem throughout_append {step : σ → ι → σ} {P : σ → Prop} {s : σ} {us vs : List ι} :
    Throughout P step s (us ++ vs) ↔
      Throughout P step s us ∧ Throughout P step (run step s us) vs := by
  induction us generalizing s with
  | nil => exact ⟨fun h => ⟨h.start, h⟩, fun h => h.2⟩
  | cons a us ih => rw [List.cons_append, Throughout, Throughout, ih, run_cons, and_assoc]

theorem guarded_append {step : σ → ι → σ} {C : σ → ι → Prop} {s : σ} {us vs : List ι} :
    Guarded C step s (us ++ vs) ↔ Guarded C step s us ∧ Guarded C step (run step s us) vs := by
  induction us generalizing s with
  | nil => exact (and_iff_right trivial).symm
  | cons a us ih => rw [List.cons_append, Guarded, Guarded, ih, run_cons, and_assoc]

/-- A condition that every step from the states of an invariant meets. -/
theorem guarded_of_forall {step : σ → ι → σ} {C : σ → ι → Prop} {I : σ → Prop} {us : List ι}
    (keeps : ∀ s, ∀ a ∈ us, I s → C s a ∧ I (step s a)) {s : σ} (start : I s) :
    Guarded C step s us := by
  induction us generalizing s with
  | nil => trivial
  | cons a us ih =>
      obtain ⟨meets, next⟩ := keeps s a List.mem_cons_self start
      exact ⟨meets, ih (fun s b mem => keeps s b (List.mem_cons_of_mem a mem)) next⟩

/-- A run that is not guarded has a first step that misses the condition. -/
theorem exists_of_not_guarded {step : σ → ι → σ} {C : σ → ι → Prop} {s : σ} {us : List ι}
    (unguarded : ¬ Guarded C step s us) :
    ∃ pre a post, us = pre ++ a :: post ∧ Guarded C step s pre ∧ ¬ C (run step s pre) a := by
  induction us generalizing s with
  | nil => exact absurd trivial unguarded
  | cons a us ih =>
      by_cases here : C s a
      · have later : ¬ Guarded C step (step s a) us := fun guarded => unguarded ⟨here, guarded⟩
        obtain ⟨pre, b, post, split, guarded, misses⟩ := ih later
        exact ⟨a :: pre, b, post, by rw [split, List.cons_append], ⟨here, guarded⟩, misses⟩
      · exact ⟨[], a, us, rfl, trivial, here⟩

/-- A property kept by the steps that meet `C` holds throughout every run that is
guarded by `C`. -/
theorem throughout_of_guarded {step : σ → ι → σ} {C : σ → ι → Prop} {I : σ → Prop}
    (keeps : ∀ s a, I s → C s a → I (step s a)) {s : σ} (start : I s) {us : List ι}
    (guarded : Guarded C step s us) : Throughout I step s us := by
  induction us generalizing s with
  | nil => exact start
  | cons a us ih => exact ⟨start, ih (keeps s a start guarded.1) guarded.2⟩

theorem Throughout.imp {step : σ → ι → σ} {P Q : σ → Prop} (weaken : ∀ s, P s → Q s) {s : σ}
    {us : List ι} (throughout : Throughout P step s us) : Throughout Q step s us := by
  induction us generalizing s with
  | nil => exact weaken s throughout
  | cons a us ih => exact ⟨weaken s throughout.1, ih throughout.2⟩

/-- A property kept by the steps that meet `C` holds at the end of every run that
is guarded by `C`. -/
theorem run_invariant_of_guarded {step : σ → ι → σ} {C : σ → ι → Prop} {I : σ → Prop}
    (keeps : ∀ s a, I s → C s a → I (step s a)) {s : σ} (start : I s) {us : List ι}
    (guarded : Guarded C step s us) : I (run step s us) := by
  induction us generalizing s with
  | nil => exact start
  | cons a us ih =>
      obtain ⟨here, later⟩ := guarded
      exact ih (keeps s a start here) later

/-- Where, from the states of an invariant `I`, a step leads back into `P` exactly
when it meets `C`, a run stays in `P` exactly when it starts there and is guarded
by `C`. -/
theorem throughout_iff_guarded {step : σ → ι → σ} {C : σ → ι → Prop} {I P : σ → Prop}
    (keeps : ∀ s a, I s → I (step s a))
    (exact_step : ∀ s a, I s → P s → (P (step s a) ↔ C s a))
    {s : σ} (start : I s) (us : List ι) :
    Throughout P step s us ↔ P s ∧ Guarded C step s us := by
  induction us generalizing s with
  | nil => simp [Throughout, Guarded]
  | cons a us ih =>
      rw [Throughout, Guarded, ih (keeps s a start)]
      constructor
      · rintro ⟨here, next, later⟩
        exact ⟨here, (exact_step s a start here).mp next, later⟩
      · rintro ⟨here, meets, later⟩
        exact ⟨here, (exact_step s a start here).mpr meets, later⟩

/-- Where, on the admissible inputs `A`, a step keeps `P` exactly when it meets `C` and
what `P` has lost is never regained, `P` holds at the end of a run exactly when it holds
at the start and the run is guarded by `C`. -/
theorem run_iff_guarded {step : σ → ι → σ} {A C : σ → ι → Prop} {I P : σ → Prop}
    (keeps : ∀ s a, I s → A s a → I (step s a))
    (exact_step : ∀ s a, I s → A s a → (P (step s a) ↔ P s ∧ C s a))
    {s : σ} (start : I s) {us : List ι} (admissible : Guarded A step s us) :
    P (run step s us) ↔ P s ∧ Guarded C step s us := by
  induction us generalizing s with
  | nil => simp [Guarded]
  | cons a us ih =>
      obtain ⟨here, later⟩ := admissible
      rw [run_cons, ih (keeps s a start here) later, exact_step s a start here, Guarded, and_assoc]

/-! ## Simulation -/

/-- Two systems whose steps keep a relation on the same inputs stay related. -/
theorem run_related {step : σ → ι → σ} {step' : τ → ι → τ} {R : σ → τ → Prop}
    (keeps : ∀ s t a, R s t → R (step s a) (step' t a)) {s : σ} {t : τ} (start : R s t)
    (us : List ι) : R (run step s us) (run step' t us) := by
  induction us generalizing s t with
  | nil => exact start
  | cons a us ih => exact ih (keeps s t a start)

/-- Two systems that stay related as long as the steps of the first meet `C`, and in
related states of which `C` and `D` say the same of every admissible input: the run of the
first is guarded by `C` exactly when that of the second is guarded by `D`. -/
theorem guarded_iff_guarded {step : σ → ι → σ} {step' : τ → ι → τ} {R : σ → τ → Prop}
    {A C : σ → ι → Prop} {D : τ → ι → Prop}
    (agree : ∀ s t a, R s t → A s a → (C s a ↔ D t a))
    (keeps : ∀ s t a, R s t → A s a → C s a → R (step s a) (step' t a))
    {s : σ} {t : τ} (start : R s t) {us : List ι} (admissible : Guarded A step s us) :
    Guarded C step s us ↔ Guarded D step' t us := by
  induction us generalizing s t with
  | nil => rfl
  | cons a us ih =>
      obtain ⟨here, later⟩ := admissible
      rw [Guarded, Guarded, ← agree s t a start here]
      exact and_congr_right fun meets => ih (keeps s t a start here meets) later

/-! ### Parts of a state

A part of the state that evolves by itself: what is said of it alone can be read off
from its own run. -/

section Part

variable {part : σ → τ} {step : σ → ι → σ} {step' : τ → ι → τ}
  (steps : ∀ s a, part (step s a) = step' (part s) a)

include steps

theorem run_part (s : σ) (us : List ι) : part (run step s us) = run step' (part s) us :=
  run_related (R := fun s t => part s = t) (fun s _ a same => by rw [steps, same]) rfl us

theorem guarded_part {C : τ → ι → Prop} (s : σ) (us : List ι) :
    Guarded (fun s a => C (part s) a) step s us ↔ Guarded C step' (part s) us := by
  induction us generalizing s with
  | nil => rfl
  | cons a us ih => rw [Guarded, Guarded, ih, steps]

theorem throughout_part {P : τ → Prop} (s : σ) (us : List ι) :
    Throughout (fun s => P (part s)) step s us ↔ Throughout P step' (part s) us := by
  induction us generalizing s with
  | nil => rfl
  | cons a us ih => rw [Throughout, Throughout, ih, steps]

end Part

/-! ## Outputs -/

/-- What a run puts out, one value for every input. -/
def outputs (step : σ → ι → σ) (out : σ → ι → ω) : σ → List ι → List ω
  | _, [] => []
  | s, a :: us => out s a :: outputs step out (step s a) us

section Outputs

variable (step : σ → ι → σ) (out : σ → ι → ω)

@[simp] theorem outputs_nil (s : σ) : outputs step out s [] = [] := rfl

@[simp] theorem outputs_cons (s : σ) (a : ι) (us : List ι) :
    outputs step out s (a :: us) = out s a :: outputs step out (step s a) us := rfl

@[simp] theorem length_outputs (s : σ) (us : List ι) :
    (outputs step out s us).length = us.length := by
  induction us generalizing s with
  | nil => rfl
  | cons a us ih => simp [ih]

theorem outputs_append (s : σ) (us vs : List ι) :
    outputs step out s (us ++ vs) =
      outputs step out s us ++ outputs step out (run step s us) vs := by
  induction us generalizing s with
  | nil => rfl
  | cons a us ih => simp [ih]

variable {step out}

/-- Steps that meet a condition put out what is expected. -/
theorem outputs_of_guarded {C : σ → ι → Prop} {expect : ι → ω}
    (meets : ∀ s a, C s a → out s a = expect a) {s : σ} {us : List ι}
    (guarded : Guarded C step s us) : outputs step out s us = us.map expect := by
  induction us generalizing s with
  | nil => rfl
  | cons a us ih => rw [outputs_cons, List.map_cons, meets s a guarded.1, ih guarded.2]

/-- Outputs that depend on a part of the state alone, which evolves by itself. -/
theorem outputs_of_part {part : σ → τ} {step' : τ → ι → τ} {out' : τ → ι → ω}
    (steps : ∀ s a, part (step s a) = step' (part s) a)
    (outs : ∀ s a, out s a = out' (part s) a) (s : σ) (us : List ι) :
    outputs step out s us = outputs step' out' (part s) us := by
  induction us generalizing s with
  | nil => rfl
  | cons a us ih => rw [outputs_cons, outputs_cons, outs, ih, steps]

/-- A list to which every step appends what it puts out. -/
theorem run_appends {total : σ → List τ} {out : σ → ι → List τ}
    (appends : ∀ s a, total (step s a) = total s ++ out s a) (s : σ) (us : List ι) :
    total (run step s us) = total s ++ (outputs step out s us).flatten := by
  induction us generalizing s with
  | nil => simp
  | cons a us ih => rw [run_cons, ih, appends, outputs_cons, List.flatten_cons, List.append_assoc]

/-- A counter that a step advances by one exactly when it puts out `v`. -/
theorem run_counts [BEq ω] (total : σ → ℕ) {v : ω}
    (counts : ∀ s a, total (step s a) = total s + if out s a == v then 1 else 0) (s : σ)
    (us : List ι) : total (run step s us) = total s + (outputs step out s us).count v := by
  induction us generalizing s with
  | nil => rfl
  | cons a us ih =>
      rw [run_cons, ih, counts, outputs_cons, List.count_cons, Nat.add_assoc, Nat.add_comm (ite ..)]

/-- **Conservation.**  A system holds `content`; a step takes `ins` in behind it and gives
`outs` out in front of it.  Then a run gives out what it held and took in, in this order,
but for what it holds at the end. -/
theorem conserved_of_guarded (content : σ → List τ) {ins outs : σ → ι → List τ}
    {C : σ → ι → Prop} {I : σ → Prop}
    (keeps : ∀ s a, I s → C s a → I (step s a) ∧
      content s ++ ins s a = outs s a ++ content (step s a)) {s : σ} (start : I s) {us : List ι}
    (guarded : Guarded C step s us) :
    content s ++ (outputs step ins s us).flatten =
      (outputs step outs s us).flatten ++ content (run step s us) := by
  induction us generalizing s with
  | nil => simp
  | cons a us ih =>
      obtain ⟨inside, passes⟩ := keeps s a start guarded.1
      calc content s ++ (outputs step ins s (a :: us)).flatten
          = (content s ++ ins s a) ++ (outputs step ins (step s a) us).flatten := by simp
        _ = outs s a ++ (content (step s a) ++ (outputs step ins (step s a) us).flatten) := by
            rw [passes, List.append_assoc]
        _ = (outputs step outs s (a :: us)).flatten ++ content (run step s (a :: us)) := by
            rw [ih inside guarded.2]
            simp

/-- **Streams of messages.**  Messages are encoded by `enc` and should be answered by
`expect`, input for input.  If from an idle state a message is so answered, and left
behind by an idle state, exactly when it is `Good`, then a stream of messages is
answered as it should be exactly when all of them are. -/
theorem outputs_flatMap_iff {α : Type*} {enc : α → List ι} {expect : α → List ω}
    {I : σ → Prop} {Good : α → Prop} {xs : List α}
    (width : ∀ x ∈ xs, (expect x).length = (enc x).length)
    (good : ∀ s, ∀ x ∈ xs, I s → Good x →
      outputs step out s (enc x) = expect x ∧ I (run step s (enc x)))
    (bad : ∀ s, ∀ x ∈ xs, I s → ¬ Good x → outputs step out s (enc x) ≠ expect x)
    {s : σ} (idle : I s) :
    outputs step out s (xs.flatMap enc) = xs.flatMap expect ↔ ∀ x ∈ xs, Good x := by
  induction xs generalizing s with
  | nil => simp
  | cons x xs ih =>
      have later := fun s => ih (s := s) (fun y mem => width y (List.mem_cons_of_mem x mem))
        (fun s y mem => good s y (List.mem_cons_of_mem x mem))
        (fun s y mem => bad s y (List.mem_cons_of_mem x mem))
      have sameWidth : (outputs step out s (enc x)).length = (expect x).length := by
        rw [length_outputs, width x List.mem_cons_self]
      rw [List.flatMap_cons, List.flatMap_cons, outputs_append, List.forall_mem_cons]
      constructor
      · intro answered
        obtain ⟨first, rest⟩ := List.append_inj answered sameWidth
        have isGood : Good x := by
          by_contra isBad
          exact bad s x List.mem_cons_self idle isBad first
        exact ⟨isGood, (later _ (good s x List.mem_cons_self idle isGood).2).mp rest⟩
      · rintro ⟨isGood, others⟩
        obtain ⟨first, again⟩ := good s x List.mem_cons_self idle isGood
        rw [first, (later _ again).mpr others]

end Outputs

end Trajectory
