import CannonCar.Foundation.Words
import Mathlib.Logic.Function.Basic

/-!
# Taking a string apart in its buffer

A string lies in a buffer of `size` entries and ends with a terminator.  The scan puts the
address of each of its words into `argv` and stores a terminator over the separator behind
it.  `argv` has room for `slots` addresses, of which the scan fills as many as it is told;
behind the last one it stores a `none`, which can be outside: `stray` says so.

`scan_scanned` is what comes of it, whatever the string.
-/

namespace Tokens

open Words

universe u

/-- What ends a string, and what lies between its words. -/
structure Alphabet (α : Type u) where
  nul : α
  sep : α → Bool
  nul_plain : sep nul = false

variable {α : Type u}

/-- The entries of a buffer from an address on. -/
def bytesFrom (size : ℕ) (buf : ℕ → α) (p : ℕ) : List α := ((List.range size).map buf).drop p

/-- A string and its terminator at an address. -/
def HasString (A : Alphabet α) (size : ℕ) (buf : ℕ → α) (p : ℕ) (str : List α) : Prop :=
  ∃ rest, bytesFrom size buf p = str ++ A.nul :: rest

/-- The state of a scan. -/
structure Scan (α : Type u) where
  buf : ℕ → α
  argv : ℕ → Option ℕ
  nargs : ℕ
  /-- The indices behind `argv` stored to. -/
  stray : List ℕ
  /-- The indices of the buffer stored to. -/
  cuts : List ℕ
  /-- The scan has stopped in front of the end of the string. -/
  full : Bool

section Definitions

variable [DecidableEq α] (A : Alphabet α) (size slots : ℕ)

def stringAt (buf : ℕ → α) (p : ℕ) : List α := (bytesFrom size buf p).takeWhile (· ≠ A.nul)

def skipSeps (buf : ℕ → α) (line : ℕ) : ℕ :=
  line + ((bytesFrom size buf line).takeWhile A.sep).length

def skipWord (buf : ℕ → α) (line : ℕ) : ℕ :=
  line + ((bytesFrom size buf line).takeWhile fun c => c ≠ A.nul ∧ !A.sep c).length

/-- `argv[nargs] = v`. -/
def Scan.storeArgv (p : Scan α) (v : Option ℕ) : Scan α :=
  if p.nargs < slots then { p with argv := Function.update p.argv p.nargs v }
  else { p with stray := p.stray ++ [p.nargs] }

/-- The scan from `line` on, for at most `room` words more. -/
def loop : ℕ → Scan α → ℕ → Scan α
  | 0, p, _ => { p with full := true }
  | room + 1, p, line =>
      let line := skipSeps A size p.buf line
      if p.buf line = A.nul then p.storeArgv slots none
      else
        let p : Scan α := { p.storeArgv slots (some line) with nargs := p.nargs + 1 }
        let line := skipWord A size p.buf line
        if p.buf line = A.nul then p.storeArgv slots none
        else
          loop room { p with buf := Function.update p.buf line A.nul, cuts := line :: p.cuts }
            (line + 1)

/-- The scan of the string at `line`. -/
def scan (room : ℕ) (buf : ℕ → α) (line : ℕ) (argv : ℕ → Option ℕ) : Scan α :=
  loop A size slots room ⟨buf, argv, 0, [], [], false⟩ line

/-- The strings `argv` holds the addresses of. -/
def Scan.args (r : Scan α) : List (List α) :=
  (List.range r.nargs).map fun i =>
    match r.argv i with
    | some a => stringAt A size r.buf a
    | none => []

end Definitions

/-! ## Strings in the buffer -/

section Strings

variable {A : Alphabet α} {size p e : ℕ} {buf : ℕ → α} {str str' : List α}

theorem bytesFrom_add (buf : ℕ → α) (p n : ℕ) :
    bytesFrom size buf (p + n) = (bytesFrom size buf p).drop n := by
  rw [bytesFrom, bytesFrom, List.drop_drop]

/-- An entry of the buffer. -/
theorem getElem_bytesFrom {i : ℕ} (inside : i < (bytesFrom size buf p).length) :
    (bytesFrom size buf p)[i] = buf (p + i) := by
  simp only [bytesFrom, List.getElem_drop, List.getElem_map, List.getElem_range]

/-- The entry behind a piece of the buffer. -/
theorem buf_eq {c : α} {rest : List α} (bytes : bytesFrom size buf p = str ++ c :: rest) :
    buf (p + str.length) = c := by
  have inside : str.length < (bytesFrom size buf p).length := by
    rw [bytes, List.length_append, List.length_cons]
    omega
  rw [← getElem_bytesFrom inside]
  simp only [bytes, List.getElem_append_right (le_refl str.length), Nat.sub_self,
    List.getElem_cons_zero]

/-- A store at or behind an address. -/
theorem bytesFrom_update (i : ℕ) (c : α) :
    bytesFrom size (Function.update buf (p + i) c) p = (bytesFrom size buf p).set i c := by
  apply List.ext_getElem
  · simp only [bytesFrom, List.length_set, List.length_drop, List.length_map, List.length_range]
  · intro j h h'
    rw [getElem_bytesFrom, List.getElem_set]
    split_ifs with here
    · rw [here, Function.update_self]
    · rw [Function.update_of_ne (by omega), getElem_bytesFrom]

/-- A store in front of an address. -/
theorem bytesFrom_update_of_lt (before : e < p) (c : α) :
    bytesFrom size (Function.update buf e c) p = bytesFrom size buf p := by
  apply List.ext_getElem
  · simp only [bytesFrom, List.length_drop, List.length_map, List.length_range]
  · intro j h h'
    rw [getElem_bytesFrom, getElem_bytesFrom, Function.update_of_ne (by omega)]

/-- A string ends where its terminator is. -/
theorem HasString.buf_eq (has : HasString A size buf p str) : buf (p + str.length) = A.nul := by
  obtain ⟨rest, bytes⟩ := has
  exact Tokens.buf_eq bytes

/-- The entries of a string. -/
theorem HasString.getElem (has : HasString A size buf p str) {i : ℕ} (h : i < str.length) :
    buf (p + i) = str[i] := by
  obtain ⟨rest, bytes⟩ := has
  have inside : i < (bytesFrom size buf p).length := by
    rw [bytes, List.length_append]
    omega
  rw [← getElem_bytesFrom inside]
  simp only [bytes, List.getElem_append_left h]

/-- A string is in the buffer. -/
theorem HasString.length_lt (has : HasString A size buf p str) : p + str.length < size := by
  obtain ⟨rest, bytes⟩ := has
  have length := congrArg List.length bytes
  simp only [bytesFrom, List.length_drop, List.length_map, List.length_range, List.length_append,
    List.length_cons] at length
  omega

/-- The rest of a string. -/
theorem HasString.drop (has : HasString A size buf p (str ++ str')) :
    HasString A size buf (p + str.length) str' := by
  obtain ⟨rest, bytes⟩ := has
  refine ⟨rest, ?_⟩
  rw [bytesFrom_add, bytes, List.append_assoc, List.drop_left]

theorem HasString.stringAt [DecidableEq α] (has : HasString A size buf p str)
    (nonzero : ∀ c ∈ str, c ≠ A.nul) : stringAt A size buf p = str := by
  obtain ⟨rest, bytes⟩ := has
  rw [Tokens.stringAt, bytes, List.takeWhile_append_of_pos]
  · simp
  · simpa using nonzero

/-- A terminator stored further on. -/
theorem HasString.update (has : HasString A size buf p str) (behind : p + str.length < e) :
    HasString A size (Function.update buf e A.nul) p str := by
  obtain ⟨i, rfl⟩ := Nat.exists_eq_add_of_lt behind
  obtain ⟨rest, bytes⟩ := has
  have place : p + str.length + i + 1 = p + (str.length + (i + 1)) := by omega
  refine ⟨rest.set i A.nul, ?_⟩
  rw [place, bytesFrom_update, bytes, List.set_append_right _ _ (Nat.le_add_right _ _),
    Nat.add_sub_cancel_left, List.set_cons_succ]

/-- A terminator stored into a string: what is in front of it, and what is behind. -/
theorem HasString.cut {c : α} (has : HasString A size buf p (str ++ c :: str')) :
    HasString A size (Function.update buf (p + str.length) A.nul) p str ∧
      HasString A size (Function.update buf (p + str.length) A.nul) (p + str.length + 1) str' := by
  obtain ⟨rest, bytes⟩ := has
  rw [List.append_assoc, List.cons_append] at bytes
  refine ⟨⟨str' ++ A.nul :: rest, ?_⟩, rest, ?_⟩
  · rw [bytesFrom_update, bytes, List.set_append_right _ _ le_rfl, Nat.sub_self,
      List.set_cons_zero]
  · rw [bytesFrom_update_of_lt (Nat.lt_add_one _), Nat.add_assoc, bytesFrom_add, bytes,
      ← List.drop_drop, List.drop_left]
    rfl

end Strings

/-! ## One word -/

section Word

variable {A : Alphabet α} {size line : ℕ} {buf : ℕ → α} {seps word str : List α}

/-- Separators are skipped up to what is not one, the terminator at the latest. -/
theorem skipSeps_eq (has : HasString A size buf line (seps ++ str)) (skipped : ∀ c ∈ seps, A.sep c)
    (stop : ∀ c ∈ str.head?, A.sep c = false) :
    skipSeps A size buf line = line + seps.length := by
  obtain ⟨rest, bytes⟩ := has
  rw [skipSeps, bytes]
  cases str with
  | nil => rw [List.append_nil, takeWhile_stretch skipped A.nul_plain]
  | cons c str =>
      rw [List.append_assoc, List.cons_append, takeWhile_stretch skipped (stop c rfl)]

/-- A word is skipped up to a separator or the terminator. -/
theorem skipWord_eq [DecidableEq α] (has : HasString A size buf line (word ++ str))
    (plain : ∀ c ∈ word, A.sep c = false) (nonzero : ∀ c ∈ word, c ≠ A.nul)
    (stop : ∀ c ∈ str.head?, A.sep c) : skipWord A size buf line = line + word.length := by
  obtain ⟨rest, bytes⟩ := has
  have inWord : ∀ c ∈ word, decide (c ≠ A.nul ∧ (!A.sep c) = true) = true := by
    intro c mem
    rw [decide_eq_true_eq, plain c mem]
    exact ⟨nonzero c mem, rfl⟩
  rw [skipWord, bytes]
  cases str with
  | nil => rw [List.append_nil, takeWhile_stretch inWord (by simp)]
  | cons c str =>
      rw [List.append_assoc, List.cons_append, takeWhile_stretch inWord]
      rw [stop c rfl]
      simp

/-- The first entry of a word. -/
theorem HasString.buf_ne_nul (has : HasString A size buf line (word ++ str)) (some_ : word ≠ [])
    (nonzero : ∀ c ∈ word, c ≠ A.nul) : buf line ≠ A.nul := by
  obtain ⟨c, word, rfl⟩ := List.exists_cons_of_ne_nil some_
  obtain ⟨rest, bytes⟩ := has
  have first : buf (line + ([] : List α).length) = c := Tokens.buf_eq bytes
  rw [show buf line = c from first]
  exact nonzero c List.mem_cons_self

/-- A word does not begin with a separator. -/
theorem head_plain (some_ : word ≠ []) (plain : ∀ c ∈ word, A.sep c = false) :
    ∀ c ∈ (word ++ str).head?, A.sep c = false := by
  obtain ⟨w, word, rfl⟩ := List.exists_cons_of_ne_nil some_
  intro c mem
  rw [← Option.some.inj mem]
  exact plain w List.mem_cons_self

end Word

/-! ## Stores to `argv` -/

namespace Scan

variable {p : Scan α} {slots : ℕ}

theorem storeArgv_of_lt (inside : p.nargs < slots) (v : Option ℕ) :
    p.storeArgv slots v = { p with argv := Function.update p.argv p.nargs v } := if_pos inside

@[simp] theorem storeArgv_buf (p : Scan α) (v : Option ℕ) : (p.storeArgv slots v).buf = p.buf := by
  unfold storeArgv
  split_ifs <;> rfl

@[simp] theorem storeArgv_nargs (p : Scan α) (v : Option ℕ) :
    (p.storeArgv slots v).nargs = p.nargs := by
  unfold storeArgv
  split_ifs <;> rfl

@[simp] theorem storeArgv_cuts (p : Scan α) (v : Option ℕ) :
    (p.storeArgv slots v).cuts = p.cuts := by
  unfold storeArgv
  split_ifs <;> rfl

@[simp] theorem storeArgv_full (p : Scan α) (v : Option ℕ) :
    (p.storeArgv slots v).full = p.full := by
  unfold storeArgv
  split_ifs <;> rfl

theorem storeArgv_stray (p : Scan α) (v : Option ℕ) :
    (p.storeArgv slots v).stray = p.stray ++ if p.nargs < slots then [] else [p.nargs] := by
  unfold storeArgv
  split_ifs
  · exact (List.append_nil _).symm
  · rfl

/-- The addresses in front of the one stored stay. -/
theorem storeArgv_argv {j : ℕ} (before : j < p.nargs) (v : Option ℕ) :
    (p.storeArgv slots v).argv j = p.argv j := by
  unfold storeArgv
  split_ifs
  · exact Function.update_of_ne (ne_of_lt before) _ _
  · rfl

/-- The address stored. -/
theorem storeArgv_argv_self (inside : p.nargs < slots) (v : Option ℕ) :
    (p.storeArgv slots v).argv p.nargs = v := by
  rw [storeArgv_of_lt inside]
  exact Function.update_self _ _ _

end Scan

/-! ## One turn -/

section Turn

variable [DecidableEq α] {A : Alphabet α} {size slots line room : ℕ} {p : Scan α}
variable {seps word str : List α} {b : α}

/-- No word is left. -/
theorem loop_seps (has : HasString A size p.buf line seps) (skipped : ∀ c ∈ seps, A.sep c) :
    loop A size slots (room + 1) p line = p.storeArgv slots none := by
  rw [← List.append_nil seps] at has
  have skip := skipSeps_eq has skipped (fun c mem => absurd mem (Option.not_mem_none c))
  have stop := has.drop.buf_eq
  simp only [loop, skip]
  exact if_pos stop

/-- A last word. -/
theorem loop_last (has : HasString A size p.buf line (seps ++ word))
    (skipped : ∀ c ∈ seps, A.sep c) (some_ : word ≠ []) (plain : ∀ c ∈ word, A.sep c = false)
    (nonzero : ∀ c ∈ word, c ≠ A.nul) :
    loop A size slots (room + 1) p line =
      Scan.storeArgv slots
        { p.storeArgv slots (some (line + seps.length)) with nargs := p.nargs + 1 } none := by
  have first : ∀ c ∈ word.head?, A.sep c = false := by
    rw [← List.append_nil word]
    exact head_plain some_ plain
  have skip := skipSeps_eq has skipped first
  have there : HasString A size p.buf (line + seps.length) (word ++ []) := by
    rw [List.append_nil]
    exact has.drop
  have here := there.buf_ne_nul some_ nonzero
  have next := skipWord_eq there plain nonzero (fun c mem => absurd mem (Option.not_mem_none c))
  have stop := has.drop.buf_eq
  simp only [loop, skip, Scan.storeArgv_buf, next]
  rw [if_neg here, if_pos stop]

/-- A word and a separator. -/
theorem loop_more (has : HasString A size p.buf line (seps ++ (word ++ b :: str)))
    (skipped : ∀ c ∈ seps, A.sep c) (some_ : word ≠ [])
    (plain : ∀ c ∈ word, A.sep c = false) (nonzero : ∀ c ∈ word, c ≠ A.nul) (isSep : A.sep b) :
    loop A size slots (room + 1) p line =
      loop A size slots room { p.storeArgv slots (some (line + seps.length)) with
          nargs := p.nargs + 1
          buf := Function.update p.buf (line + seps.length + word.length) A.nul
          cuts := (line + seps.length + word.length) :: p.cuts }
        (line + seps.length + word.length + 1) := by
  have skip := skipSeps_eq has skipped (head_plain some_ plain)
  have there : HasString A size p.buf (line + seps.length) (word ++ b :: str) := has.drop
  have here := there.buf_ne_nul some_ nonzero
  have next := skipWord_eq there plain nonzero (fun c mem => Option.some.inj mem ▸ isSep)
  have behind : p.buf (line + seps.length + word.length) ≠ A.nul := by
    obtain ⟨rest, bytes⟩ := there
    rw [List.append_assoc] at bytes
    rw [Tokens.buf_eq bytes]
    rintro rfl
    exact Bool.noConfusion (isSep.symm.trans A.nul_plain)
  simp only [loop, skip, Scan.storeArgv_buf, Scan.storeArgv_cuts, next]
  rw [if_neg here, if_neg behind]

end Turn

/-! ## All words -/

section Fill

variable {sep : α → Bool} {room : ℕ} {seps word str : List α} {b : α}

/-- The string has `room` words, and ends with the last. -/
def Fills (sep : α → Bool) (room : ℕ) (str : List α) : Prop :=
  (words sep str).length = room ∧ endsInWord sep str = true

/-- The string goes on behind `room` words. -/
def Overflows (sep : α → Bool) (room : ℕ) (str : List α) : Prop :=
  room ≤ (words sep str).length ∧ ¬ Fills sep room str

instance (sep : α → Bool) (room : ℕ) (str : List α) : Decidable (Fills sep room str) :=
  inferInstanceAs (Decidable (_ ∧ _))

instance (sep : α → Bool) (room : ℕ) (str : List α) : Decidable (Overflows sep room str) :=
  inferInstanceAs (Decidable (_ ∧ _))

theorem not_fills_zero (sep : α → Bool) (str : List α) : ¬ Fills sep 0 str := by
  rintro ⟨none_, ends⟩
  cases parts sep str with
  | seps skipped =>
      rw [endsInWord_seps skipped] at ends
      exact Bool.noConfusion ends
  | last skipped some_ plain =>
      rw [words_skip skipped, words_last some_ plain] at none_
      exact Nat.succ_ne_zero 0 none_
  | more skipped some_ plain isSep =>
      rw [words_skip skipped, words_word some_ plain isSep] at none_
      exact Nat.succ_ne_zero _ none_

theorem fills_last (skipped : ∀ c ∈ seps, sep c) (some_ : word ≠ [])
    (plain : ∀ c ∈ word, sep c = false) : Fills sep (room + 1) (seps ++ word) ↔ room = 0 := by
  rw [Fills, words_skip skipped, words_last some_ plain, endsInWord_last some_ plain,
    List.length_singleton, and_iff_left rfl]
  omega

theorem fills_more (skipped : ∀ c ∈ seps, sep c) (some_ : word ≠ [])
    (plain : ∀ c ∈ word, sep c = false) (isSep : sep b) :
    Fills sep (room + 1) (seps ++ (word ++ b :: str)) ↔ Fills sep room str := by
  rw [Fills, words_skip skipped, words_word some_ plain isSep, ← List.append_assoc,
    endsInWord_more isSep, List.length_cons, Nat.add_right_cancel_iff, Fills]

theorem overflows_more (skipped : ∀ c ∈ seps, sep c) (some_ : word ≠ [])
    (plain : ∀ c ∈ word, sep c = false) (isSep : sep b) :
    Overflows sep (room + 1) (seps ++ (word ++ b :: str)) ↔ Overflows sep room str := by
  rw [Overflows, fills_more skipped some_ plain isSep, words_skip skipped,
    words_word some_ plain isSep, List.length_cons, Nat.add_le_add_iff_right, Overflows]

end Fill

/-- What a scan of the string at `line` makes of it, from a state on. -/
structure Scanned (A : Alphabet α) (size slots room : ℕ) (p : Scan α) (line : ℕ) (str : List α)
    (r : Scan α) : Prop where
  nargs_eq : r.nargs = p.nargs + ((words A.sep str).take room).length
  argv_eq : ∀ i word, ((words A.sep str).take room)[i]? = some word →
    ∃ before, WordAt A.sep str i before word ∧ r.argv (p.nargs + i) = some (line + before.length) ∧
      HasString A size r.buf (line + before.length) word
  /-- What has been stored and what lies in front of the string stays. -/
  argv_kept : ∀ j < p.nargs, r.argv j = p.argv j
  strings_kept : ∀ a word, a + word.length < line → HasString A size p.buf a word →
    HasString A size r.buf a word
  stray_eq : r.stray =
    p.stray ++ if Fills A.sep room str ∧ p.nargs + room = slots then [slots] else []
  cuts_inside : ∀ c ∈ r.cuts, c ∈ p.cuts ∨ line ≤ c ∧ c < line + str.length
  full_eq : r.full = (p.full || Overflows A.sep room str)

section Scanned

variable {A : Alphabet α} {size slots line room : ℕ} {p : Scan α}
variable {seps word str : List α} {b : α}

theorem scanned_zero (p : Scan α) (line : ℕ) (str : List α) :
    Scanned A size slots 0 p line str { p with full := true } where
  nargs_eq := rfl
  argv_eq i word found := by
    rw [List.take_zero] at found
    exact absurd found.symm (Option.some_ne_none word)
  argv_kept _ _ := rfl
  strings_kept _ _ _ has := has
  stray_eq := by rw [if_neg fun fills => not_fills_zero A.sep str fills.1, List.append_nil]
  cuts_inside _ mem := .inl mem
  full_eq := by rw [decide_eq_true ⟨Nat.zero_le _, not_fills_zero A.sep str⟩, Bool.or_true]

/-- No word is left: the `none` goes behind those there are. -/
theorem scanned_seps (inside : p.nargs < slots) (skipped : ∀ c ∈ str, A.sep c) :
    Scanned A size slots (room + 1) p line str (p.storeArgv slots none) := by
  have no_ : words A.sep str = [] := words_seps skipped
  have notFills : ¬ Fills A.sep (room + 1) str := by
    rintro ⟨length, -⟩
    rw [no_] at length
    exact Nat.succ_ne_zero room length.symm
  have notOverflows : ¬ Overflows A.sep (room + 1) str := by
    rintro ⟨length, -⟩
    rw [no_] at length
    exact Nat.not_succ_le_zero room length
  refine ⟨?_, ?_, ?_, ?_, ?_, ?_, ?_⟩
  · rw [no_]
    exact Scan.storeArgv_nargs p none
  · intro i word found
    rw [no_, List.take_nil] at found
    exact absurd found.symm (Option.some_ne_none word)
  · intro j before
    exact Scan.storeArgv_argv before none
  · intro a word _ has
    rwa [Scan.storeArgv_buf]
  · rw [Scan.storeArgv_stray, if_pos inside, if_neg fun fills => notFills fills.1]
  · intro c mem
    rw [Scan.storeArgv_cuts] at mem
    exact .inl mem
  · rw [Scan.storeArgv_full, decide_eq_false notOverflows, Bool.or_false]

/-- A last word: where it takes the last place, the `none` goes behind the array. -/
theorem scanned_last (places : p.nargs + (room + 1) ≤ slots)
    (has : HasString A size p.buf line (seps ++ word)) (skipped : ∀ c ∈ seps, A.sep c)
    (some_ : word ≠ []) (plain : ∀ c ∈ word, A.sep c = false) :
    Scanned A size slots (room + 1) p line (seps ++ word)
      (Scan.storeArgv slots
        { p.storeArgv slots (some (line + seps.length)) with nargs := p.nargs + 1 } none) := by
  have inside : p.nargs < slots := by omega
  have one : words A.sep (seps ++ word) = [word] := by
    rw [words_skip skipped, words_last some_ plain]
  have fills : Fills A.sep (room + 1) (seps ++ word) ↔ room = 0 := fills_last skipped some_ plain
  have notOverflows : ¬ Overflows A.sep (room + 1) (seps ++ word) := by
    rintro ⟨length, notFills⟩
    rw [one, List.length_singleton] at length
    exact notFills (fills.mpr (by omega))
  refine ⟨?_, ?_, ?_, ?_, ?_, ?_, ?_⟩
  · rw [Scan.storeArgv_nargs, one, List.take_succ_cons, List.take_nil]
    rfl
  · intro i w found
    rw [one, List.take_succ_cons, List.take_nil] at found
    cases i with
    | zero =>
        rw [← Option.some.inj found]
        refine ⟨seps, .last skipped some_ plain, ?_, ?_⟩
        · rw [Scan.storeArgv_argv (Nat.lt_add_one p.nargs)]
          exact Scan.storeArgv_argv_self inside _
        · rw [Scan.storeArgv_buf]
          show HasString A size (p.storeArgv slots _).buf _ word
          rw [Scan.storeArgv_buf]
          exact has.drop
    | succ i => exact absurd found.symm (Option.some_ne_none w)
  · intro j before
    rw [Scan.storeArgv_argv (Nat.lt_succ_of_lt before)]
    exact Scan.storeArgv_argv before _
  · intro a w _ kept
    rw [Scan.storeArgv_buf]
    show HasString A size (p.storeArgv slots _).buf _ w
    rwa [Scan.storeArgv_buf]
  · have stored : (p.storeArgv slots (some (line + seps.length))).stray = p.stray := by
      rw [Scan.storeArgv_stray, if_pos inside, List.append_nil]
    rw [Scan.storeArgv_stray]
    show (p.storeArgv slots _).stray ++ (if p.nargs + 1 < slots then [] else [p.nargs + 1]) = _
    rw [stored]
    by_cases behind : p.nargs + 1 < slots
    · rw [if_pos behind, if_neg]
      rintro ⟨isLast, here⟩
      have none_ := fills.mp isLast
      omega
    · have last : room = 0 := by omega
      rw [if_neg behind, if_pos ⟨fills.mpr last, by omega⟩, show p.nargs + 1 = slots by omega]
  · intro c mem
    rw [Scan.storeArgv_cuts] at mem
    exact .inl ((Scan.storeArgv_cuts p (some (line + seps.length))) ▸ mem)
  · rw [Scan.storeArgv_full, decide_eq_false notOverflows, Bool.or_false]
    exact Scan.storeArgv_full p _

/-- A word and a separator, and what the rest of the string is taken apart to. -/
theorem scanned_more {a line' : ℕ} {p' r : Scan α}
    (has : HasString A size p.buf line (seps ++ (word ++ b :: str)))
    (skipped : ∀ c ∈ seps, A.sep c) (some_ : word ≠ [])
    (plain : ∀ c ∈ word, A.sep c = false) (isSep : A.sep b)
    (a_eq : a = line + seps.length) (line_eq : line' = a + word.length + 1)
    (p'_eq : p' = { p with argv := Function.update p.argv p.nargs (some a), nargs := p.nargs + 1,
                           buf := Function.update p.buf (a + word.length) A.nul,
                           cuts := (a + word.length) :: p.cuts })
    (scanned : Scanned A size slots room p' line' str r) :
    Scanned A size slots (room + 1) p line (seps ++ (word ++ b :: str)) r := by
  have words_eq : (words A.sep (seps ++ (word ++ b :: str))).take (room + 1) =
      word :: (words A.sep str).take room := by
    rw [words_skip skipped, words_word some_ plain isSep, List.take_succ_cons]
  have first : HasString A size p'.buf a word := by
    rw [p'_eq, a_eq]
    exact has.drop.cut.1
  have length : (seps ++ (word ++ b :: str)).length =
      seps.length + word.length + 1 + str.length := by
    simp only [List.length_append, List.length_cons]
    omega
  subst p'_eq
  refine ⟨?_, ?_, ?_, ?_, ?_, ?_, ?_⟩
  · rw [words_eq, scanned.nargs_eq, List.length_cons]
    show p.nargs + 1 + _ = _
    omega
  · intro i w found
    rw [words_eq] at found
    cases i with
    | zero =>
        rw [← Option.some.inj found]
        refine ⟨seps, .first skipped some_ plain isSep, ?_, ?_⟩
        · rw [← a_eq]
          exact (scanned.argv_kept p.nargs (Nat.lt_add_one _)).trans (Function.update_self _ _ _)
        · rw [← a_eq]
          exact scanned.strings_kept a word (by omega) first
    | succ i =>
        obtain ⟨before, at_, address, has'⟩ := scanned.argv_eq i w found
        have place : line' + before.length = line + (seps ++ (word ++ b :: before)).length := by
          simp only [List.length_append, List.length_cons]
          omega
        rw [place] at address has'
        refine ⟨_, at_.later skipped some_ plain isSep, ?_, has'⟩
        rw [show p.nargs + (i + 1) = p.nargs + 1 + i by omega]
        exact address
  · intro j before
    exact (scanned.argv_kept j (Nat.lt_succ_of_lt before)).trans
      (Function.update_of_ne (ne_of_lt before) _ _)
  · intro a' w before kept
    exact scanned.strings_kept a' w (by omega) (kept.update (by omega))
  · rw [scanned.stray_eq]
    simp only [fills_more skipped some_ plain isSep]
    rw [show p.nargs + 1 + room = p.nargs + (room + 1) by omega]
  · intro c mem
    rw [length]
    rcases scanned.cuts_inside c mem with earlier | later
    · rcases List.mem_cons.mp earlier with rfl | earlier
      · exact .inr (by omega)
      · exact .inl earlier
    · exact .inr (by omega)
  · rw [scanned.full_eq]
    simp only [overflows_more skipped some_ plain isSep]

/-- What the scan makes of a string, if there is room for the words it may take. -/
theorem loop_scanned [DecidableEq α] (room : ℕ) {p : Scan α} {line : ℕ} {str : List α}
    (places : p.nargs + room ≤ slots) (has : HasString A size p.buf line str)
    (nonzero : ∀ c ∈ str, c ≠ A.nul) :
    Scanned A size slots room p line str (loop A size slots room p line) := by
  induction room generalizing p line str with
  | zero => exact scanned_zero p line str
  | succ room ih =>
      have inside : p.nargs < slots := by omega
      cases parts A.sep str with
      | seps skipped =>
          rw [loop_seps has skipped]
          exact scanned_seps inside skipped
      | last skipped some_ plain =>
          have inWord := fun c mem => nonzero c (List.mem_append_right _ mem)
          rw [loop_last has skipped some_ plain inWord]
          exact scanned_last places has skipped some_ plain
      | @more seps word rest b skipped some_ plain isSep =>
          have inWord : ∀ c ∈ word, c ≠ A.nul := fun c mem =>
            nonzero c (List.mem_append_right _ (List.mem_append_left _ mem))
          have inRest : ∀ c ∈ rest, c ≠ A.nul := fun c mem =>
            nonzero c (List.mem_append_right _
              (List.mem_append_right _ (List.mem_cons_of_mem _ mem)))
          rw [loop_more has skipped some_ plain inWord isSep, Scan.storeArgv_of_lt inside]
          have scanned := ih (p := { p with
              argv := Function.update p.argv p.nargs (some (line + seps.length))
              nargs := p.nargs + 1
              buf := Function.update p.buf (line + seps.length + word.length) A.nul
              cuts := (line + seps.length + word.length) :: p.cuts })
            (by show p.nargs + 1 + room ≤ _; omega) has.drop.cut.2 inRest
          exact scanned_more has skipped some_ plain isSep rfl rfl rfl scanned

/-- **What a whole scan makes of a string.** -/
theorem scan_scanned [DecidableEq α] {room : ℕ} (places : room ≤ slots) {buf : ℕ → α} {str : List α}
    (has : HasString A size buf line str) (nonzero : ∀ c ∈ str, c ≠ A.nul) (argv : ℕ → Option ℕ) :
    Scanned A size slots room ⟨buf, argv, 0, [], [], false⟩ line str
      (scan A size slots room buf line argv) :=
  loop_scanned room ((Nat.zero_add room).le.trans places) has nonzero

/-- **The arguments are the words.** -/
theorem args_scan [DecidableEq α] {room : ℕ} (places : room ≤ slots) {buf : ℕ → α} {str : List α}
    (has : HasString A size buf line str) (nonzero : ∀ c ∈ str, c ≠ A.nul) (argv : ℕ → Option ℕ) :
    (scan A size slots room buf line argv).args A size = (words A.sep str).take room := by
  have scanned := scan_scanned places has nonzero argv
  have nargs := scanned.nargs_eq
  rw [Nat.zero_add] at nargs
  apply List.ext_getElem
  · rw [Scan.args, List.length_map, List.length_range, nargs]
  · intro i h h'
    obtain ⟨before, -, address, has'⟩ := scanned.argv_eq i _ (List.getElem?_eq_getElem h')
    rw [Nat.zero_add] at address
    have isWord := List.mem_of_mem_take (List.getElem_mem h')
    have inWord : ∀ c ∈ ((words A.sep str).take room)[i], c ≠ A.nul :=
      fun c mem => nonzero c (mem_of_mem_words isWord mem)
    simp only [Scan.args, List.getElem_map, List.getElem_range, address]
    exact has'.stringAt inWord

end Scanned

end Tokens
