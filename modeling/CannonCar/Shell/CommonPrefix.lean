import CannonCar.Foundation.CommonPrefix
import CannonCar.Shell.CompletionBounds

/-!
# What `find_common_prefix` finds

The inner loop advances before it compares, so that the first characters are never looked
at, and the length of the first name is cut to 8 bits.  So is the number of names: of 256
names and more only the first ones are `seen`, as many as the low 8 bits say.  What is found
is the greatest number up to that length for which the names seen agree with the first on
what lies between their first character and it (`findCommonPrefix_isGreatest`).

`findCommonPrefixTraced` goes through the same loops and writes down what it reads of which
name; the name at index 0 is also the one all others are compared with.

## What is load-bearing

`findCommonPrefixTraced` returns what `findCommonPrefix` does, so the reads are those of the same
loops.  The names are strings with a terminator behind them, and a read at the index of the
terminator is allowed; `Given` says that the array holds the names of the list, none of them
empty.

The count is taken modulo 256, as the caller passes an `int` where the function has a `uint8_t`.
The last condition of `findCommonPrefix_iff` is about that alone: for up to 255 names all of
them are seen, and it says nothing.
-/

namespace CannonCar.Shell

open CommonPrefix MachineInt

/-! ## The characters read -/

/-- The inner loop of `find_common_prefix` from `i` on, `n` times at most: `s - anchor`, and
the places compared. -/
def compareLoop (anchor t : List (BitVec 8)) : ℕ → ℕ → ℕ × List ℕ
  | 0, i => (i, [])
  | n + 1, i =>
      if t.getD (i + 1) 0 ≠ anchor.getD (i + 1) 0 then (i + 1, [i + 1])
      else
        let r := compareLoop anchor t n (i + 1)
        (r.1, (i + 1) :: r.2)

/-- The outer loop: the length found, and the reads by name and place. -/
def prefixLoop (anchor : List (BitVec 8)) (argv : ℕ → Option CString) :
    ℕ → ℕ → ℕ → ℕ × List (ℕ × ℕ)
  | 0, _, len => (len, [])
  | num + 1, j, len =>
      match argv j with
      | none => (len, [])
      | some t =>
          let r := compareLoop anchor t.1 len 0
          let rest := prefixLoop anchor argv num (j + 1) r.1
          (rest.1, (r.2.flatMap fun p => [(j, p), (0, p)]) ++ rest.2)

/-- `find_common_prefix`, with the characters it reads.  `strlen` reads the first name up to
its terminator. -/
def findCommonPrefixTraced (argv : ℕ → Option CString) (num : ℕ) : ℕ × List (ℕ × ℕ) :=
  match argv 0 with
  | none => (0, [])
  | some anchor =>
      let r := prefixLoop anchor.1 argv num 0 (toUnsigned 8 anchor.1.length)
      (r.1, (List.range (anchor.1.length + 1)).map (fun p => (0, p)) ++ r.2)

/-! ## One name -/

/-- The two agree between their first character and place `k`. -/
def AgreeBefore (anchor t : List (BitVec 8)) (k : ℕ) : Prop :=
  ∀ i, 0 < i → i < k → t.getD i 0 = anchor.getD i 0

variable {anchor t : List (BitVec 8)}

theorem AgreeBefore.mono {j k : ℕ} (le : j ≤ k) (agree : AgreeBefore anchor t k) :
    AgreeBefore anchor t j := fun i pos lt => agree i pos (lt.trans_le le)

theorem agreeBefore_succ {k : ℕ} (pos : 0 < k) :
    AgreeBefore anchor t (k + 1) ↔
      AgreeBefore anchor t k ∧ t.getD k 0 = anchor.getD k 0 := by
  constructor
  · intro agree
    exact ⟨agree.mono k.le_succ, agree k pos k.lt_succ_self⟩
  · rintro ⟨agree, here⟩ i pos lt
    rcases Nat.lt_succ_iff_lt_or_eq.mp lt with before | rfl
    · exact agree i pos before
    · exact here

/-- Before anything is compared there is nothing to disagree on. -/
theorem agreeBefore_one (anchor t : List (BitVec 8)) : AgreeBefore anchor t 1 :=
  fun i pos lt => absurd pos (by omega)

/-- Where the inner loop ends. -/
theorem compareLoop_isGreatest (n : ℕ) {i : ℕ} (agree : AgreeBefore anchor t (i + 1)) :
    IsGreatest {k | k ≤ i + n ∧ AgreeBefore anchor t k} (compareLoop anchor t n i).1 := by
  induction n generalizing i with
  | zero => exact ⟨⟨le_rfl, agree.mono i.le_succ⟩, fun k within => within.1⟩
  | succ n ih =>
      rw [compareLoop]
      split_ifs with differ
      · refine ⟨⟨by omega, agree⟩, fun k within => ?_⟩
        by_contra beyond
        exact differ (within.2 (i + 1) i.succ_pos (not_le.mp beyond))
      · have next := ih ((agreeBefore_succ i.succ_pos).mpr ⟨agree, not_not.mp differ⟩)
        rwa [Nat.add_right_comm, Nat.add_assoc] at next

/-- The loop without its reads. -/
theorem compareLoop_fst (anchor t : List (BitVec 8)) (n : ℕ) :
    (compareLoop anchor t n 0).1 = commonLen anchor t n := by
  have traced := compareLoop_isGreatest n (agreeBefore_one anchor t)
  rw [Nat.zero_add] at traced
  refine traced.unique ?_
  unfold commonLen
  split
  · next i found =>
      obtain ⟨differ, mem, before⟩ := List.find?_range_eq_some.mp found
      refine ⟨⟨List.mem_range.mp mem, fun j pos lt => ?_⟩, fun k within => ?_⟩
      · have same := before (j - 1) (by omega)
        rw [Nat.sub_add_cancel pos] at same
        simpa using same
      · by_contra beyond
        have same := within.2 (i + 1) i.succ_pos (not_le.mp beyond)
        exact absurd same (of_decide_eq_true differ)
  · next none =>
      refine ⟨⟨le_rfl, fun j pos lt => ?_⟩, fun k within => within.1⟩
      have same := List.find?_range_eq_none.mp none (j - 1) (by omega)
      rw [Nat.sub_add_cancel pos] at same
      simpa using same

/-- A place is read only behind places that agree. -/
theorem agreeBefore_of_mem_compareLoop {n i p : ℕ} (agree : AgreeBefore anchor t (i + 1))
    (mem : p ∈ (compareLoop anchor t n i).2) :
    0 < p ∧ p ≤ i + n ∧ AgreeBefore anchor t p := by
  induction n generalizing i with
  | zero => exact absurd mem List.not_mem_nil
  | succ n ih =>
      rw [compareLoop] at mem
      split_ifs at mem with differ
      · obtain rfl := List.mem_singleton.mp mem
        exact ⟨i.succ_pos, by omega, agree⟩
      · rcases List.mem_cons.mp mem with rfl | later
        · exact ⟨i.succ_pos, by omega, agree⟩
        · have next := ih ((agreeBefore_succ i.succ_pos).mpr ⟨agree, not_not.mp differ⟩) later
          exact ⟨next.1, by omega, next.2.2⟩

/-- A place of a name that is read is no further than its terminator. -/
theorem le_length_of_mem_compareLoop {n p : ℕ} (proper : ∀ c ∈ anchor, c ≠ 0)
    (cut : n ≤ anchor.length) (some_ : t ≠ []) (mem : p ∈ (compareLoop anchor t n 0).2) :
    p ≤ t.length ∧ p ≤ anchor.length := by
  obtain ⟨-, le, agree⟩ := agreeBefore_of_mem_compareLoop (agreeBefore_one _ _) mem
  rw [Nat.zero_add] at le
  refine ⟨?_, le.trans cut⟩
  by_contra behind
  -- the terminator has been compared before, with a character of the first name
  have terminator := agree t.length (List.length_pos_iff.mpr some_) (not_le.mp behind)
  have inside : t.length < anchor.length := (not_le.mp behind).trans_le (le.trans cut)
  rw [List.getD_eq_default _ _ le_rfl, List.getD_eq_getElem _ _ inside] at terminator
  exact proper _ (List.getElem_mem inside) terminator.symm

/-! ## All names -/

/-- `argv` begins with the given names. -/
def Lists (argv : ℕ → Option CString) (j : ℕ) (names : List CString) : Prop :=
  ∀ i < names.length, argv (j + i) = names[i]?

variable {argv : ℕ → Option CString}

theorem lists_cons {j : ℕ} {name : CString} {names : List CString} :
    Lists argv j (name :: names) ↔ argv j = some name ∧ Lists argv (j + 1) names := by
  constructor
  · intro given
    refine ⟨given 0 (Nat.succ_pos _), fun i lt => ?_⟩
    have entry := given (i + 1) (Nat.succ_lt_succ lt)
    rwa [List.getElem?_cons_succ, ← Nat.add_assoc, Nat.add_right_comm] at entry
  · rintro ⟨first, later⟩ i lt
    cases i with
    | zero => exact first
    | succ i =>
        rw [List.getElem?_cons_succ, ← later i (Nat.lt_of_succ_lt_succ lt), Nat.add_assoc,
          Nat.add_comm 1 i]

/-- The loops without their reads. -/
theorem prefixLoop_fst (anchor : List (BitVec 8)) (argv : ℕ → Option CString) (num j len : ℕ) :
    (prefixLoop anchor argv num j len).1 = commonPrefix anchor argv num j len := by
  induction num generalizing j len with
  | zero => rfl
  | succ num ih =>
      rw [prefixLoop, commonPrefix]
      cases argv j with
      | none => rfl
      | some t =>
          show (prefixLoop anchor argv num (j + 1) (compareLoop anchor t.1 len 0).1).1 = _
          rw [ih, compareLoop_fst]

theorem findCommonPrefixTraced_fst (argv : ℕ → Option CString) (num : ℕ) :
    (findCommonPrefixTraced argv num).1 = findCommonPrefix argv num := by
  unfold findCommonPrefixTraced findCommonPrefix
  cases argv 0 with
  | none => rfl
  | some anchor => exact prefixLoop_fst _ _ _ _ _

/-- Where the outer loop ends. -/
theorem prefixLoop_isGreatest (anchor : List (BitVec 8)) {names : List CString} {j : ℕ}
    (given : Lists argv j names) (len : ℕ) :
    IsGreatest {k | k ≤ len ∧ ∀ t ∈ names, AgreeBefore anchor t.1 k}
      (prefixLoop anchor argv names.length j len).1 := by
  induction names generalizing j len with
  | nil => exact ⟨⟨le_rfl, fun t mem => absurd mem List.not_mem_nil⟩, fun k within => within.1⟩
  | cons name names ih =>
      obtain ⟨here, later⟩ := lists_cons.mp given
      have inner := compareLoop_isGreatest len (agreeBefore_one anchor name.1)
      rw [Nat.zero_add] at inner
      have both := isGreatest_and (fun _ _ le => AgreeBefore.mono le) inner (ih later _)
      simp only [List.forall_mem_cons]
      rw [List.length_cons, prefixLoop, here]
      exact both

/-- What the outer loop reads. -/
theorem inside_of_mem_prefixLoop {names : List CString} {j len : ℕ} {r : ℕ × ℕ} {first : CString}
    (is : argv 0 = some first) (given : Lists argv j names) (cut : len ≤ first.1.length)
    (some_ : ∀ t ∈ names, t.1 ≠ [])
    (mem : r ∈ (prefixLoop first.1 argv names.length j len).2) :
    ∃ word, argv r.1 = some word ∧ r.2 ≤ word.1.length := by
  induction names generalizing j len with
  | nil => exact absurd mem List.not_mem_nil
  | cons name names ih =>
      obtain ⟨here, later⟩ := lists_cons.mp given
      rw [List.length_cons, prefixLoop, here] at mem
      rcases List.mem_append.mp mem with compared | rest
      · obtain ⟨p, read, pair⟩ := List.mem_flatMap.mp compared
        obtain ⟨inName, inFirst⟩ := le_length_of_mem_compareLoop first.2 cut
          (some_ name List.mem_cons_self) read
        rcases List.mem_pair.mp pair with rfl | rfl
        · exact ⟨name, here, inName⟩
        · exact ⟨first, is, inFirst⟩
      · have less := (compareLoop_fst first.1 name.1 len).trans_le (commonLen_le _ _ _)
        exact ih later (less.trans cut) (fun t mem => some_ t (List.mem_cons_of_mem name mem)) rest

/-- Behind a first character in common, to agree is to share. -/
theorem shared_iff_agreeBefore {first : CString} {others : List CString} {k : ℕ}
    (le : k ≤ first.1.length) :
    Shared ((first :: others).map Subtype.val) k ↔
      (k = 0 ∨ Shared ((first :: others).map Subtype.val) 1) ∧
        ∀ t ∈ first :: others, AgreeBefore first.1 t.1 k := by
  have proper : (0 : BitVec 8) ∉ first.1 := fun mem => first.2 0 mem rfl
  constructor
  · intro shared
    refine ⟨?_, fun t mem i pos lt => ?_⟩
    · rcases Nat.eq_zero_or_pos k with zero | pos
      · exact .inl zero
      · exact .inr (shared.mono pos)
    · exact shared.getD_eq (List.mem_map_of_mem mem) (List.mem_map_of_mem List.mem_cons_self) lt 0
  · rintro ⟨zero | one, agree⟩
    · rw [zero]
      exact shared_zero _
    · rw [List.map_cons, shared_cons_iff proper]
      refine ⟨le, fun w mem i lt => ?_⟩
      obtain ⟨t, isName, rfl⟩ := List.mem_map.mp mem
      rcases Nat.eq_zero_or_pos i with rfl | pos
      · exact one.getD_eq (List.mem_map_of_mem (List.mem_cons_of_mem first isName))
          (List.mem_map_of_mem List.mem_cons_self) Nat.one_pos 0
      · exact agree t (List.mem_cons_of_mem first isName) i pos lt

/-- A list of names as `find_common_prefix` is given it: none of them is empty. -/
structure Given (argv : ℕ → Option CString) (names : List CString) : Prop where
  lists : Lists argv 0 names
  some_ : ∀ t ∈ names, t.1 ≠ []

/-- The names the outer loop comes to: their number is passed as a `uint8_t`. -/
def seen (names : List CString) : List CString := names.take (names.length % 256)

theorem length_seen (names : List CString) : (seen names).length = toUnsigned 8 names.length := by
  have cut : toUnsigned 8 (names.length : ℤ) = names.length % 256 := by
    unfold toUnsigned
    omega
  rw [seen, List.length_take_of_le (Nat.mod_le _ _), cut]

theorem mem_of_mem_seen {names : List CString} {t : CString} (mem : t ∈ seen names) : t ∈ names :=
  List.mem_of_mem_take mem

/-- Where any name is seen, the first one is. -/
theorem seen_cons (first : CString) (others : List CString) :
    seen (first :: others) = [] ∨ ∃ rest, seen (first :: others) = first :: rest := by
  unfold seen
  cases (first :: others).length % 256 with
  | zero => exact .inl rfl
  | succ m => exact .inr ⟨others.take m, rfl⟩

theorem Lists.take {j : ℕ} {names : List CString} (given : Lists argv j names) (m : ℕ) :
    Lists argv j (names.take m) := by
  intro i lt
  rw [List.length_take, lt_min_iff] at lt
  rw [given i lt.2, List.getElem?_take_of_lt lt.1]

/-- The names seen agree where they share, and share where they agree and begin alike. -/
theorem shared_seen_iff {first : CString} {others : List CString} {k : ℕ}
    (le : k ≤ first.1.length)
    (alike : k = 0 ∨ Shared ((first :: others).map Subtype.val) 1) :
    Shared ((seen (first :: others)).map Subtype.val) k ↔
      ∀ t ∈ seen (first :: others), AgreeBefore first.1 t.1 k := by
  have sub : ∀ w ∈ (seen (first :: others)).map Subtype.val,
      w ∈ (first :: others).map Subtype.val := by
    intro w mem
    obtain ⟨t, isName, rfl⟩ := List.mem_map.mp mem
    exact List.mem_map_of_mem (mem_of_mem_seen isName)
  rcases seen_cons first others with none | ⟨rest, here⟩
  · rw [none]
    exact iff_of_true (shared_nil k) fun t mem => absurd mem List.not_mem_nil
  · rw [here] at sub ⊢
    rw [shared_iff_agreeBefore le]
    exact and_iff_right (alike.imp_right fun one => one.subset sub)

section Given

variable {first : CString} {others : List CString} (given : Given argv (first :: others))

include given

/-- **What is found**: how far the names seen agree behind their first characters, but no
more than the length of the first name, cut to 8 bits. -/
theorem findCommonPrefix_isGreatest :
    IsGreatest {k | k ≤ first.1.length % 256 ∧
        ∀ t ∈ seen (first :: others), AgreeBefore first.1 t.1 k}
      (findCommonPrefix argv (toUnsigned 8 (first :: others).length)) := by
  have cut : toUnsigned 8 (first.1.length : ℤ) = first.1.length % 256 := by
    unfold toUnsigned
    omega
  have found := prefixLoop_isGreatest first.1 (given.lists.take ((first :: others).length % 256))
    (first.1.length % 256)
  rw [prefixLoop_fst, ← seen, length_seen] at found
  unfold findCommonPrefix
  rw [(lists_cons.mp given.lists).1]
  show IsGreatest _ (commonPrefix first.1 argv _ 0 (toUnsigned 8 (first.1.length : ℤ)))
  rw [cut]
  exact found

/-- No character behind a terminator is read. -/
theorem findCommonPrefixTraced_inside {r : ℕ × ℕ}
    (mem : r ∈ (findCommonPrefixTraced argv (toUnsigned 8 (first :: others).length)).2) :
    ∃ word, argv r.1 = some word ∧ r.2 ≤ word.1.length := by
  have is := (lists_cons.mp given.lists).1
  unfold findCommonPrefixTraced at mem
  rw [is] at mem
  rcases List.mem_append.mp mem with scanned | compared
  · obtain ⟨p, within, rfl⟩ := List.mem_map.mp scanned
    exact ⟨first, is, Nat.lt_succ_iff.mp (List.mem_range.mp within)⟩
  · have cut : toUnsigned 8 (first.1.length : ℤ) ≤ first.1.length := by
      unfold toUnsigned
      omega
    rw [← length_seen] at compared
    exact inside_of_mem_prefixLoop is (given.lists.take _) cut
      (fun t isName => given.some_ t (mem_of_mem_seen isName)) compared

end Given

/-- **The longest common prefix is found**, and nothing read behind a terminator, exactly
when the names begin with the same character, or the length of the first one is cut to 0;
they do not share more than that length, cut to 8 bits; and up to it the names seen share no
more than all of them do. -/
theorem findCommonPrefix_iff {argv : ℕ → Option CString} (first : CString)
    (others : List CString) (given : Given argv (first :: others)) :
    (IsGreatest {k | Shared ((first :: others).map Subtype.val) k}
        (findCommonPrefix argv (toUnsigned 8 (first :: others).length)) ∧
      ∀ r ∈ (findCommonPrefixTraced argv (toUnsigned 8 (first :: others).length)).2,
        ∃ word, argv r.1 = some word ∧ r.2 ≤ word.1.length) ↔
    (Shared ((first :: others).map Subtype.val) 1 ∨ first.1.length % 256 = 0) ∧
      ¬ Shared ((first :: others).map Subtype.val) (first.1.length % 256 + 1) ∧
        ∀ k ≤ first.1.length % 256, Shared ((seen (first :: others)).map Subtype.val) k →
          Shared ((first :: others).map Subtype.val) k := by
  have found := findCommonPrefix_isGreatest given
  have cut : first.1.length % 256 ≤ first.1.length := Nat.mod_le _ _
  have reads : ∀ r ∈ (findCommonPrefixTraced argv (toUnsigned 8 (first :: others).length)).2,
      ∃ word, argv r.1 = some word ∧ r.2 ≤ word.1.length :=
    fun r mem => findCommonPrefixTraced_inside given mem
  rw [and_iff_left reads]
  generalize findCommonPrefix argv _ = r at found ⊢
  generalize first.1.length % 256 = len at found cut ⊢
  obtain ⟨⟨within, agree⟩, most⟩ := found
  constructor
  · rintro ⟨shared, longest⟩
    have alike : Shared ((first :: others).map Subtype.val) 1 ∨ len = 0 := by
      by_contra neither
      push Not at neither
      -- one character is found whatever the first characters are
      have one : 1 ≤ r :=
        most ⟨Nat.one_le_iff_ne_zero.mpr neither.2, fun t _ => agreeBefore_one _ _⟩
      exact neither.1 (shared.mono one)
    refine ⟨alike, fun more => absurd (longest more) (by omega), fun k le few => ?_⟩
    have start : k = 0 ∨ Shared ((first :: others).map Subtype.val) 1 :=
      alike.elim .inr fun empty => .inl (by omega)
    exact shared.mono (most ⟨le, (shared_seen_iff (le.trans cut) start).mp few⟩)
  · rintro ⟨same, few, all⟩
    have start : r = 0 ∨ Shared ((first :: others).map Subtype.val) 1 :=
      same.elim .inr fun empty => .inl (by omega)
    refine ⟨all r within ((shared_seen_iff (within.trans cut) start).mpr agree), ?_⟩
    intro k shared
    have le : k ≤ len := by
      by_contra beyond
      exact few (shared.mono (not_le.mp beyond))
    refine most ⟨le, fun t isName => ?_⟩
    exact ((shared_iff_agreeBefore (le.trans cut)).mp shared).2 t (mem_of_mem_seen isName)

/-- An array of two names. -/
def two (s t : CString) : ℕ → Option CString := fun i => [s, t][i]?

theorem given_two {s t : CString} (someS : s.1 ≠ []) (someT : t.1 ≠ []) :
    Given (two s t) [s, t] where
  lists := fun i _ => by rw [two, Nat.zero_add]
  some_ := List.forall_mem_cons.mpr ⟨someS, List.forall_mem_singleton.mpr someT⟩

/-- Two names that begin alike. -/
def reset : CString := ⟨ascii "reset", by decide⟩

def reboot : CString := ⟨ascii "reboot", by decide⟩

theorem findCommonPrefix_iff_of_reset_reboot :
    (IsGreatest {k | Shared ([reset, reboot].map Subtype.val) k}
        (findCommonPrefix (two reset reboot) (toUnsigned 8 [reset, reboot].length)) ∧
      ∀ r ∈ (findCommonPrefixTraced (two reset reboot) (toUnsigned 8 [reset, reboot].length)).2,
        ∃ word, two reset reboot r.1 = some word ∧ r.2 ≤ word.1.length) ↔
    (Shared ([reset, reboot].map Subtype.val) 1 ∨ reset.1.length % 256 = 0) ∧
      ¬ Shared ([reset, reboot].map Subtype.val) (reset.1.length % 256 + 1) ∧
        ∀ k ≤ reset.1.length % 256, Shared ((seen [reset, reboot]).map Subtype.val) k →
          Shared ([reset, reboot].map Subtype.val) k :=
  findCommonPrefix_iff reset [reboot] (given_two (by decide) (by decide))

/-- `a` and `b` have no character in common, and 1 is found. -/
theorem not_findCommonPrefix_longest :
    ¬ ∀ (first : CString) (others : List CString) (argv : ℕ → Option CString),
      Given argv (first :: others) →
        IsGreatest {k | Shared ((first :: others).map Subtype.val) k}
          (findCommonPrefix argv (toUnsigned 8 (first :: others).length)) ∧
        ∀ r ∈ (findCommonPrefixTraced argv (toUnsigned 8 (first :: others).length)).2,
          ∃ word, argv r.1 = some word ∧ r.2 ≤ word.1.length := by
  intro always
  have found : findCommonPrefix (two ⟨ascii "a", by decide⟩ ⟨ascii "b", by decide⟩)
      (toUnsigned 8 (2 : ℕ)) = 1 := by decide +kernel
  have longest : Shared _ (findCommonPrefix _ (toUnsigned 8 (2 : ℕ))) :=
    (always ⟨ascii "a", by decide⟩ [⟨ascii "b", by decide⟩] _
      (given_two (by decide) (by decide))).1.1
  rw [found] at longest
  have same := Shared.getD_eq longest List.mem_cons_self
    (List.mem_cons_of_mem _ List.mem_cons_self) Nat.one_pos 0
  exact absurd same (by decide +kernel)

end CannonCar.Shell
