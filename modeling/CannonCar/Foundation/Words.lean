import Mathlib.Data.List.Basic
import Mathlib.Data.List.TakeWhile
import Mathlib.Tactic.Common

/-!
# The words of a list

The maximal stretches without a separator, in their order.  The lemmas take a list apart
from the front: separators that are skipped, then a word up to the next separator or up
to the end.

`parts` is the case distinction an induction over the words of a list uses: it is all
separators, separators and a last word, or separators, a word, a separator and a list that is
shorter.  A scan that goes over a list once takes the same three cases, so that its results
are proved along with the words.
-/

namespace Words

universe u

variable {α : Type u} {sep : α → Bool} {xs ys word : List α} {b : α}

/-- The words between the separators. -/
def words (sep : α → Bool) (xs : List α) : List (List α) :=
  (xs.splitOnP sep).filter fun word => !word.isEmpty

@[simp] theorem words_nil : words sep [] = [] := rfl

/-- Separators in front are no words. -/
theorem words_skip (seps : ∀ x ∈ xs, sep x) : words sep (xs ++ ys) = words sep ys := by
  induction xs with
  | nil => rfl
  | cons x xs ih =>
      have skipped := ih fun y mem => seps y (List.mem_cons_of_mem x mem)
      rw [← skipped, words, words, List.cons_append, List.splitOnP_cons_eq_if_modifyHead,
        if_pos (seps x List.mem_cons_self)]
      rfl

/-- A list of separators has no words. -/
theorem words_seps (seps : ∀ x ∈ xs, sep x) : words sep xs = [] := by
  rw [← List.append_nil xs, words_skip seps, words_nil]

/-- A word up to a separator. -/
theorem words_word (some_ : word ≠ []) (plain : ∀ x ∈ word, sep x = false) (isSep : sep b) :
    words sep (word ++ b :: ys) = word :: words sep ys := by
  rw [words, List.splitOnP_append_cons_of_forall_mem plain b isSep, List.filter_cons_of_pos]
  · rfl
  · simpa using some_

/-- A word up to the end. -/
theorem words_last (some_ : word ≠ []) (plain : ∀ x ∈ word, sep x = false) :
    words sep word = [word] := by
  rw [words, List.splitOnP_eq_singleton plain, List.filter_cons_of_pos]
  · rfl
  · simpa using some_

/-- A word is made of what the list is made of. -/
theorem mem_of_mem_words {x : α} (isWord : word ∈ words sep xs) (mem : x ∈ word) : x ∈ xs := by
  have piece := (List.mem_filter.mp isWord).1
  clear isWord
  induction xs generalizing word with
  | nil =>
      rw [List.mem_singleton.mp piece] at mem
      exact absurd mem List.not_mem_nil
  | cons y ys ih =>
      rw [List.splitOnP_cons_eq_if_modifyHead] at piece
      split_ifs at piece
      · rcases List.mem_cons.mp piece with rfl | piece
        · exact absurd mem List.not_mem_nil
        · exact List.mem_cons_of_mem y (ih mem piece)
      · obtain ⟨head, pieces, split⟩ := List.exists_cons_of_ne_nil (List.splitOnP_ne_nil sep ys)
        rw [split] at ih
        rw [split, List.modifyHead_cons] at piece
        rcases List.mem_cons.mp piece with rfl | piece
        · rcases List.mem_cons.mp mem with rfl | mem
          · exact List.mem_cons_self
          · exact List.mem_cons_of_mem y (ih mem List.mem_cons_self)
        · exact List.mem_cons_of_mem y (ih mem (List.mem_cons_of_mem head piece))

/-! ## The end of a list -/

/-- The list ends in a word, not in a separator. -/
def endsInWord (sep : α → Bool) (xs : List α) : Bool := xs.getLast?.any fun x => !sep x

theorem endsInWord_seps (seps : ∀ x ∈ xs, sep x) : endsInWord sep xs = false := by
  unfold endsInWord
  cases last : xs.getLast? with
  | none => rfl
  | some x =>
      rw [Option.any_some, seps x (List.mem_of_getLast? last)]
      rfl

theorem endsInWord_last (some_ : word ≠ []) (plain : ∀ x ∈ word, sep x = false) :
    endsInWord sep (xs ++ word) = true := by
  unfold endsInWord
  rw [List.getLast?_append_of_ne_nil xs some_, List.getLast?_eq_some_getLast some_, Option.any_some,
    plain _ (List.getLast_mem some_)]
  rfl

theorem endsInWord_more (isSep : sep b) : endsInWord sep (xs ++ b :: ys) = endsInWord sep ys := by
  unfold endsInWord
  rw [List.getLast?_append_of_ne_nil xs (List.cons_ne_nil b ys)]
  cases ys with
  | nil =>
      rw [List.getLast?_singleton, Option.any_some, isSep]
      rfl
  | cons y ys => rw [List.getLast?_cons_cons]

/-! ## Taking a list apart -/

/-- A list has no words, ends with its first, or goes on behind it. -/
inductive Parts (sep : α → Bool) : List α → Prop
  | seps {xs : List α} (seps : ∀ x ∈ xs, sep x) : Parts sep xs
  | last {xs word : List α} (seps : ∀ x ∈ xs, sep x) (some_ : word ≠ [])
      (plain : ∀ x ∈ word, sep x = false) : Parts sep (xs ++ word)
  | more {xs word ys : List α} {b : α} (seps : ∀ x ∈ xs, sep x) (some_ : word ≠ [])
      (plain : ∀ x ∈ word, sep x = false) (isSep : sep b) : Parts sep (xs ++ (word ++ b :: ys))

/-- A stretch is taken up to the first thing that is not. -/
theorem takeWhile_stretch {p : α → Bool} (stretch : ∀ x ∈ xs, p x = true) (stop : p b = false) :
    (xs ++ b :: ys).takeWhile p = xs := by
  rw [List.takeWhile_append_of_pos stretch, List.takeWhile_cons_of_neg (by rw [stop]; decide),
    List.append_nil]

/-- Dropping stops at something that is not dropped. -/
theorem head_dropWhile {p : α → Bool} {x : α} (rest : xs.dropWhile p = x :: ys) : p x = false := by
  have stop := List.head?_dropWhile_not p xs
  rw [rest, List.head?_cons] at stop
  exact stop

theorem parts (sep : α → Bool) (xs : List α) : Parts sep xs := by
  have seps : ∀ x ∈ xs.takeWhile sep, sep x := fun x mem => List.mem_takeWhile_imp mem
  have plain (ys : List α) : ∀ x ∈ ys.takeWhile fun x => !sep x, sep x = false := fun x mem => by
    simpa using List.mem_takeWhile_imp mem
  have whole := List.takeWhile_append_dropWhile (p := sep) (l := xs)
  rw [← whole]
  cases rest : xs.dropWhile sep with
  | nil =>
      rw [List.append_nil]
      exact .seps seps
  | cons c ys =>
      have first : (!sep c) = true := by rw [head_dropWhile rest]; rfl
      have some_ : (c :: ys).takeWhile (fun x => !sep x) ≠ [] := by
        rw [List.takeWhile_cons_of_pos (p := fun x => !sep x) first]
        exact List.cons_ne_nil _ _
      rw [← List.takeWhile_append_dropWhile (p := fun x => !sep x) (l := c :: ys)]
      cases behind : (c :: ys).dropWhile fun x => !sep x with
      | nil =>
          rw [List.append_nil]
          exact .last seps some_ (plain _)
      | cons b zs => exact .more seps some_ (plain _) (by simpa using head_dropWhile behind)

/-! ## Where a word is -/

/-- Behind `before` lies the word with number `i`: no separator is in it, and none is missing
around it. -/
structure WordAt (sep : α → Bool) (xs : List α) (i : ℕ) (before word : List α) : Prop where
  some_ : word ≠ []
  plain : ∀ x ∈ word, sep x = false
  front : ∀ x ∈ before.getLast?, sep x
  behind : ∃ after, xs = before ++ (word ++ after) ∧ ∀ x ∈ after.head?, sep x
  number : (words sep before).length = i

/-- The first word of a list that ends with it. -/
theorem WordAt.last (seps : ∀ x ∈ xs, sep x) (some_ : word ≠ [])
    (plain : ∀ x ∈ word, sep x = false) :
    WordAt sep (xs ++ word) 0 xs word where
  some_ := some_
  plain := plain
  front x mem := seps x (List.mem_of_getLast? mem)
  behind := ⟨[], by rw [List.append_nil], fun x mem => absurd mem (Option.not_mem_none x)⟩
  number := congrArg List.length (words_seps seps)

/-- The first word of a list that goes on behind it. -/
theorem WordAt.first (seps : ∀ x ∈ xs, sep x) (some_ : word ≠ [])
    (plain : ∀ x ∈ word, sep x = false) (isSep : sep b) :
    WordAt sep (xs ++ (word ++ b :: ys)) 0 xs word where
  some_ := some_
  plain := plain
  front x mem := seps x (List.mem_of_getLast? mem)
  behind := ⟨b :: ys, rfl, fun _ mem => Option.some.inj mem ▸ isSep⟩
  number := congrArg List.length (words_seps seps)

/-- A word behind the first. -/
theorem WordAt.later {i : ℕ} {before word' : List α} (at_ : WordAt sep ys i before word')
    (seps : ∀ x ∈ xs, sep x) (some_ : word ≠ []) (plain : ∀ x ∈ word, sep x = false)
    (isSep : sep b) :
    WordAt sep (xs ++ (word ++ b :: ys)) (i + 1) (xs ++ (word ++ b :: before)) word' where
  some_ := at_.some_
  plain := at_.plain
  front x mem := by
    rw [← List.append_assoc, List.getLast?_append_of_ne_nil _ (List.cons_ne_nil b before)] at mem
    cases before with
    | nil => exact Option.some.inj mem ▸ isSep
    | cons c before =>
        rw [List.getLast?_cons_cons] at mem
        exact at_.front x mem
  behind := by
    obtain ⟨after, whole, stop⟩ := at_.behind
    refine ⟨after, ?_, stop⟩
    simp only [whole, List.append_assoc, List.cons_append]
  number := by rw [words_skip seps, words_word some_ plain isSep, List.length_cons, at_.number]

end Words
