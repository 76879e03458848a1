import CannonCar.Foundation.Tokens
import CannonCar.Shell.Cread

/-!
# Parsing a line

`parse_line` takes a line apart in its buffer: it puts a pointer to each word into `argv`
and a terminator behind it.  Pointers are indices of the buffer, `NULL` is `none`.

`argv` has room for `SHELL_MAX_ARGS` pointers; the `NULL` behind the last one is stored
with it or, behind the last there is room for, outside of it.  Where a store does not go
to the array, `stray` says so, and what it hits is not modelled.

The line is that of `console_buffer` first; `parseLineIn` takes a line in any buffer, which
`parse_line_iff` is about.

## What is load-bearing

The scan is the one of `Foundation.Tokens`, of which this module is an instance with the tests and
the sizes of `parse_line` (`ofScan`); the loops of the source are written down here and shown to
be that instance, so that nothing of the scan is taken on trust.

What the words are is said of the string before it is cut (`Words.words`), and what `argv` points to
of the buffer after it (`Parsed`).  `Fills` is the kind of line that stores a `NULL` outside:
a word for each place, and nothing behind the last but its end.
-/

namespace CannonCar.Shell

open Words

/-- `SHELL_MAX_ARGS`. -/
def shellMaxArgs : ℕ := 8

/-- `isblank`. -/
def isblank (c : BitVec 8) : Bool := c = 0x20 ∨ c = 0x09

/-- The bytes from a pointer into the buffer on. -/
def bytesFrom (buf : ℕ → BitVec 8) (p : ℕ) : List (BitVec 8) :=
  ((List.range (cbSize + 1)).map buf).drop p

/-- The string at a pointer. -/
def stringAt (buf : ℕ → BitVec 8) (p : ℕ) : List (BitVec 8) :=
  (bytesFrom buf p).takeWhile (· ≠ 0)

/-- `while (isblank(*line)) ++line`. -/
def skipBlanks (buf : ℕ → BitVec 8) (line : ℕ) : ℕ :=
  line + ((bytesFrom buf line).takeWhile isblank).length

/-- `while ((*line) && (!isblank(*line))) ++line`. -/
def skipWord (buf : ℕ → BitVec 8) (line : ℕ) : ℕ :=
  line + ((bytesFrom buf line).takeWhile fun c => c ≠ 0 ∧ !isblank c).length

/-- The state of `parse_line`. -/
structure Parse where
  /-- The line, in place. -/
  buf : ℕ → BitVec 8
  argv : ℕ → Option ℕ
  nargs : ℕ
  /-- The indices behind `argv` stored to. -/
  stray : List ℕ
  /-- "Too many args" has been printed. -/
  tooMany : Bool

namespace Parse

/-- `argv[nargs] = v`. -/
def storeArgv (p : Parse) (v : Option ℕ) : Parse :=
  if p.nargs < shellMaxArgs then { p with argv := Function.update p.argv p.nargs v }
  else { p with stray := p.stray ++ [p.nargs] }

/-- The loop of `parse_line`, with room for `room` words more. -/
def loop : ℕ → Parse → ℕ → Parse
  | 0, p, _ => { p with tooMany := true }
  | room + 1, p, line =>
      let line := skipBlanks p.buf line
      if p.buf line = 0 then p.storeArgv none
      else
        let p : Parse := { p.storeArgv (some line) with nargs := p.nargs + 1 }
        let line := skipWord p.buf line
        if p.buf line = 0 then p.storeArgv none
        else loop room { p with buf := Function.update p.buf line 0 } (line + 1)

end Parse

/-- `parse_line(line, argv)`. -/
def parseLine (buf : ℕ → BitVec 8) (argv : ℕ → Option ℕ) : Parse :=
  Parse.loop shellMaxArgs ⟨buf, argv, 0, [], false⟩ 0

/-- A string and its terminator from a pointer on. -/
def HasString (buf : ℕ → BitVec 8) (p : ℕ) (str : List (BitVec 8)) : Prop :=
  ∃ rest, bytesFrom buf p = str ++ 0 :: rest

/-! ## As a scan -/

theorem isblank_zero : isblank 0 = false := rfl

/-- Lines end with `'\0'`, and blanks are between their words. -/
def blankSeparated : Tokens.Alphabet (BitVec 8) := ⟨0, isblank, isblank_zero⟩

theorem HasString.stringAt {buf : ℕ → BitVec 8} {p : ℕ} {str : List (BitVec 8)}
    (has : HasString buf p str) (nonzero : ∀ c ∈ str, c ≠ 0) : stringAt buf p = str :=
  Tokens.HasString.stringAt (A := blankSeparated) has nonzero

namespace Parse

/-- A scan, as `parse_line` keeps it. -/
def ofScan (r : Tokens.Scan (BitVec 8)) : Parse := ⟨r.buf, r.argv, r.nargs, r.stray, r.full⟩

theorem ofScan_storeArgv (r : Tokens.Scan (BitVec 8)) (v : Option ℕ) :
    (ofScan r).storeArgv v = ofScan (r.storeArgv shellMaxArgs v) := by
  rw [Tokens.Scan.storeArgv, apply_ite ofScan]
  rfl

/-- `parse_line` is the scan that ends where `argv` does. -/
theorem loop_ofScan (room : ℕ) (r : Tokens.Scan (BitVec 8)) (line : ℕ) :
    loop room (ofScan r) line =
      ofScan (Tokens.loop blankSeparated (cbSize + 1) shellMaxArgs room r line) := by
  induction room generalizing r line with
  | zero => rfl
  | succ room ih =>
      have stored (a : ℕ) := ofScan_storeArgv r (some a)
      rw [loop, Tokens.loop, apply_ite ofScan, apply_ite ofScan, ← ih, ← ofScan_storeArgv,
        ← ofScan_storeArgv]
      simp only [stored]
      rfl

/-! ## All words -/

/-- The line has a word for each place in `argv`, and ends with the last. -/
def Fills (room : ℕ) (str : List (BitVec 8)) : Prop :=
  (words isblank str).length = room ∧ endsInWord isblank str = true

/-- The line goes on behind the word for the last place. -/
def Overflows (room : ℕ) (str : List (BitVec 8)) : Prop :=
  room ≤ (words isblank str).length ∧ ¬ Fills room str

instance (room : ℕ) (str : List (BitVec 8)) : Decidable (Fills room str) :=
  inferInstanceAs (Decidable (_ ∧ _))

instance (room : ℕ) (str : List (BitVec 8)) : Decidable (Overflows room str) :=
  inferInstanceAs (Decidable (_ ∧ _))

/-- What the loop makes of the string at `line`. -/
structure Parsed (room : ℕ) (p : Parse) (line : ℕ) (str : List (BitVec 8)) (r : Parse) : Prop where
  nargs_eq : r.nargs = p.nargs + ((words isblank str).take room).length
  argv_eq : ∀ i word, ((words isblank str).take room)[i]? = some word →
    ∃ a, r.argv (p.nargs + i) = some a ∧ HasString r.buf a word
  /-- What has been stored and what lies in front of the line stays. -/
  argv_kept : ∀ j < p.nargs, r.argv j = p.argv j
  strings_kept : ∀ a word, a + word.length < line → HasString p.buf a word → HasString r.buf a word
  stray_eq : r.stray = p.stray ++ if Fills room str then [shellMaxArgs] else []
  tooMany_eq : r.tooMany = (p.tooMany || Overflows room str)

/-- What a scan is, `parse_line` finds. -/
theorem parsed_ofScan {room line : ℕ} {p r : Tokens.Scan (BitVec 8)} {str : List (BitVec 8)}
    (places : p.nargs + room = shellMaxArgs)
    (scanned : Tokens.Scanned blankSeparated (cbSize + 1) shellMaxArgs room p line str r) :
    Parsed room (ofScan p) line str (ofScan r) where
  nargs_eq := scanned.nargs_eq
  argv_eq i word found := by
    obtain ⟨before, -, address, has⟩ := scanned.argv_eq i word found
    exact ⟨_, address, has⟩
  argv_kept := scanned.argv_kept
  strings_kept := scanned.strings_kept
  stray_eq := by
    refine scanned.stray_eq.trans ?_
    simp only [places, and_true]
    rfl
  tooMany_eq := scanned.full_eq

end Parse

/-! ## Lines of any length -/

/-- `parse_line(line, argv)`, with the line in any buffer. -/
def parseLineIn (size : ℕ) (buf : ℕ → BitVec 8) (line : ℕ) (argv : ℕ → Option ℕ) :
    Tokens.Scan (BitVec 8) :=
  Tokens.scan blankSeparated size shellMaxArgs shellMaxArgs buf line argv

/-- For the line of `console_buffer` it is `parse_line`. -/
theorem parseLine_eq (buf : ℕ → BitVec 8) (argv : ℕ → Option ℕ) :
    parseLine buf argv = Parse.ofScan (parseLineIn (cbSize + 1) buf 0 argv) :=
  Parse.loop_ofScan shellMaxArgs ⟨buf, argv, 0, [], [], false⟩ 0

/-- What `parse_line` makes of a line. -/
theorem parseLine_parsed {buf : ℕ → BitVec 8} {str : List (BitVec 8)} (has : HasString buf 0 str)
    (nonzero : ∀ c ∈ str, c ≠ 0) (argv : ℕ → Option ℕ) :
    Parse.Parsed shellMaxArgs ⟨buf, argv, 0, [], false⟩ 0 str (parseLine buf argv) := by
  have scanned :=
    Tokens.scan_scanned (A := blankSeparated) (le_refl shellMaxArgs) has nonzero argv
  rw [parseLine_eq]
  exact Parse.parsed_ofScan (Nat.zero_add _) scanned

/-- Every pointer stored is stored to `argv`, and those returned are the first words of the
line, all of them if `argv` has room. -/
structure WithinArgv (size line : ℕ) (str : List (BitVec 8)) (r : Tokens.Scan (BitVec 8)) :
    Prop where
  inside : r.stray = []
  nargs_le : r.nargs ≤ shellMaxArgs
  argv_eq : ∀ i < r.nargs, ∃ before word, WordAt isblank str i before word ∧
    r.argv i = some (line + before.length) ∧
      Tokens.HasString blankSeparated size r.buf (line + before.length) word
  all_words : (words isblank str).length ≤ shellMaxArgs → r.nargs = (words isblank str).length

/-- **`parse_line` stays within `argv`** unless the line has a word for each place in it and
ends with the last: then there is none for the `NULL`. -/
theorem parse_line_iff {size line : ℕ} {buf : ℕ → BitVec 8} {str : List (BitVec 8)}
    (has : Tokens.HasString blankSeparated size buf line str) (nonzero : ∀ c ∈ str, c ≠ 0)
    (argv : ℕ → Option ℕ) :
    WithinArgv size line str (parseLineIn size buf line argv) ↔
      ¬ Parse.Fills shellMaxArgs str := by
  have scanned := Tokens.scan_scanned (le_refl shellMaxArgs) has nonzero argv
  have nargs_eq : (parseLineIn size buf line argv).nargs =
      min shellMaxArgs (words isblank str).length := by
    rw [← List.length_take, ← Nat.zero_add (List.length _)]
    exact scanned.nargs_eq
  have stray_eq : (parseLineIn size buf line argv).stray =
      if Parse.Fills shellMaxArgs str then [shellMaxArgs] else [] := by
    refine scanned.stray_eq.trans ?_
    simp only [List.nil_append, Nat.zero_add, and_true]
    rfl
  constructor
  · intro within fills
    have none_ := within.inside
    rw [stray_eq, if_pos fills] at none_
    exact List.cons_ne_nil _ _ none_
  · intro notFills
    refine ⟨?_, ?_, ?_, ?_⟩
    · rw [stray_eq, if_neg notFills]
    · rw [nargs_eq]
      exact Nat.min_le_left _ _
    · intro i inside
      rw [nargs_eq, ← List.length_take] at inside
      obtain ⟨before, at_, address, has'⟩ :=
        scanned.argv_eq i _ (List.getElem?_eq_getElem inside)
      rw [Nat.zero_add] at address
      exact ⟨before, _, at_, address, has'⟩
    · intro room
      rw [nargs_eq, Nat.min_eq_right room]

/-- Two words. -/
theorem parse_line_iff_two :
    WithinArgv 4 0 (ascii "a b") (parseLineIn 4 (fun i => (ascii "a b").getD i 0) 0 fun _ => none) ↔
      ¬ Parse.Fills shellMaxArgs (ascii "a b") :=
  parse_line_iff ⟨[], by decide⟩ (by decide) _

/-- Eight words. -/
theorem not_parse_line : ¬ ∀ (size line : ℕ) (buf : ℕ → BitVec 8) (str : List (BitVec 8))
    (argv : ℕ → Option ℕ), Tokens.HasString blankSeparated size buf line str →
      (∀ c ∈ str, c ≠ 0) → WithinArgv size line str (parseLineIn size buf line argv) := by
  intro all
  have within := all 16 0 (fun i => (ascii "1 2 3 4 5 6 7 8").getD i 0) (ascii "1 2 3 4 5 6 7 8")
    (fun _ => none) ⟨[], by decide⟩ (by decide)
  exact absurd within.inside (by decide +kernel)

end CannonCar.Shell
