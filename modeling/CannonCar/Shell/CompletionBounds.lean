import CannonCar.Shell.Autocomplete

/-!
# Where completion stores

A TAB at the end of a line stores within its four arrays, but for two kinds of lines
(`tab_iff`).  The line is copied untested, and `tmp_buf` has no room for the terminator of
one of `SHELL_CB_SIZE` characters; `DoHelpComplete` takes no notice of `maxv`, which
`complete_cmdv` itself stops at.  What is appended always fits, for the test whether it does
asks for more room than needed.

## What is load-bearing

**Four arrays, four arguments.**  `tmp_buf` is written by the copy and by the cuts of the scan;
`argv` by the scan, which keeps a place for the `NULL`; `cmdv` by the loops over the table, of
which only that of `DoHelpComplete` has no bound; and the line by the insertion, whose test is
stricter than it has to be.

**The equivalence is about the line and the table**: its length, and how many names begin with the
word asked about (`HelpOverflows`).  For other commands `ArgCompleter` keeps within `cmdv`.

The cursor is at the end of the line, as it has to be for TAB to complete.
-/

namespace CannonCar.Shell

open Cread MachineInt Words

/-! ## Stores to `cmdv` -/

section Stores

variable {c : Cmdv} {i n maxv : ℕ} {v : Option CString} {table : List CmdTbl}

/-- All stores go to the first `maxv` entries. -/
def Cmdv.Inside (maxv : ℕ) (c : Cmdv) : Prop := ∀ i ∈ c.stores, i < maxv

theorem Cmdv.Inside.store (inside : c.Inside maxv) (less : i < maxv) :
    (c.store i v).Inside maxv := by
  intro j mem
  rcases List.mem_cons.mp mem with rfl | earlier
  · exact less
  · exact inside j earlier

theorem Cmdv.Inside.storeAll {vs : List (Option CString)} (inside : c.Inside maxv)
    (fits : vs.length ≤ maxv) : (c.storeAll vs).Inside maxv := by
  intro j mem
  rcases List.mem_append.mp mem with stored | earlier
  · exact lt_of_lt_of_le (List.mem_range.mp stored) fits
  · exact inside j earlier

/-- The list of all commands leaves off in time. -/
theorem listAll_inside (two : 2 ≤ maxv) (inside : c.Inside maxv) (n_le : n ≤ maxv - 2) :
    (listAll maxv table c n).1.Inside maxv := by
  induction table generalizing c n with
  | nil => exact inside
  | cons cmdp table ih =>
      unfold listAll
      split_ifs with full
      · exact inside.store (by omega)
      · exact ih (inside.store (by omega)) (by omega)

/-- So does the list of the matches, with an entry left for the `NULL`. -/
theorem listMatches_inside {word : List (BitVec 8)} (two : 2 ≤ maxv) (inside : c.Inside maxv)
    (n_le : n ≤ maxv - 2) :
    (listMatches maxv word table c n).1.Inside maxv ∧
      (listMatches maxv word table c n).2 < maxv := by
  induction table generalizing c n with
  | nil => exact ⟨inside, show n < maxv by omega⟩
  | cons cmdp table ih =>
      simp only [listMatches]
      split_ifs with short other full
      · exact ih inside n_le
      · exact ih inside n_le
      · exact ⟨inside.store (by omega), show n + 1 < maxv by omega⟩
      · exact ih (inside.store (by omega)) (by omega)

/-! The matches of `DoHelpComplete` are counted by nothing but the width of `found`. -/

/-- The number of commands a word begins the name of. -/
def matchCount (word : List (BitVec 8)) (table : List CmdTbl) : ℕ :=
  table.countP fun cmdp => word.isPrefixOf cmdp.name.1

/-- `strncmp` with the whole of the word. -/
theorem take_eq_iff {word name : List (BitVec 8)} (byte : word.length < 2 ^ 8) :
    word.take (toUnsigned 8 word.length) = name.take (toUnsigned 8 word.length) ↔
      word.isPrefixOf name = true := by
  rw [toUnsigned_natCast byte, List.take_length, List.isPrefixOf_iff_prefix,
    List.prefix_iff_eq_take]

theorem helpMatches_inside {word : List (BitVec 8)} (byte : word.length < 2 ^ 8)
    (inside : c.Inside 20) (fits : n + matchCount word table ≤ 20) :
    (helpMatches word table c n).1.Inside 20 := by
  induction table generalizing c n with
  | nil => exact inside
  | cons cmdp table ih =>
      rw [matchCount, List.countP_cons, ← matchCount] at fits
      simp only [helpMatches, take_eq_iff byte]
      split_ifs with starts
      · rw [if_pos starts] at fits
        have next : toUnsigned 8 ((n : ℤ) + 1) = n + 1 := toUnsigned_natCast (n := n + 1) (by omega)
        rw [next]
        exact ih (inside.store (by omega)) (by omega)
      · rw [if_neg starts] at fits
        exact ih inside fits

theorem mem_helpMatches {word : List (BitVec 8)} (mem : i ∈ c.stores) :
    i ∈ (helpMatches word table c n).1.stores := by
  induction table generalizing c n with
  | nil => exact mem
  | cons cmdp table ih =>
      simp only [helpMatches]
      split_ifs
      · exact ih (List.mem_cons_of_mem _ mem)
      · exact ih mem

/-- A match too many is stored behind `cmdv`. -/
theorem helpMatches_stray {word : List (BitVec 8)} (byte : word.length < 2 ^ 8) (n_le : n ≤ 20)
    (many : 20 < n + matchCount word table) : 20 ∈ (helpMatches word table c n).1.stores := by
  induction table generalizing c n with
  | nil => exact absurd many (not_lt.mpr n_le)
  | cons cmdp table ih =>
      rw [matchCount, List.countP_cons, ← matchCount] at many
      simp only [helpMatches, take_eq_iff byte]
      split_ifs with starts
      · rw [if_pos starts] at many
        have next : toUnsigned 8 ((n : ℤ) + 1) = n + 1 := toUnsigned_natCast (n := n + 1) (by omega)
        rw [next]
        by_cases last : n = 20
        · rw [last]
          exact mem_helpMatches List.mem_cons_self
        · exact ih (by omega) (by omega)
      · rw [if_neg starts] at many
        exact ih n_le many

end Stores

/-! ## Matches of a line -/

/-- The line asks for help on a word that more names begin with than `cmdv` has room for. -/
def HelpOverflows (table : List CmdTbl) (argv : List (List (BitVec 8))) : Prop :=
  ∃ cmd word, argv = [cmd, word] ∧
    (CmdTbl.shellFindCommand table cmd).bind CmdTbl.complete = some .doHelpComplete ∧
      20 < matchCount word table

section Matches

variable {table : List CmdTbl} {argv : List (List (BitVec 8))} {lastChar : BitVec 8} {c : Cmdv}

/-- `DoHelpComplete` stores what there is to store. -/
theorem doHelpComplete_inside_iff (bytes : ∀ word ∈ argv, word.length < 2 ^ 8)
    (inside : c.Inside 20) :
    (Shell.doHelpComplete table argv c).1.Inside 20 ↔
      ¬ ∃ cmd word, argv = [cmd, word] ∧ 20 < matchCount word table := by
  unfold Shell.doHelpComplete
  split_ifs with two
  · obtain ⟨cmd, word, rfl⟩ := List.length_eq_two.mp two
    have byte : word.length < 2 ^ 8 := bytes word (List.mem_cons_of_mem _ List.mem_cons_self)
    show (helpMatches word table c 0).1.Inside 20 ↔ _
    constructor
    · rintro all ⟨cmd', word', same, many⟩
      obtain ⟨-, rfl⟩ : cmd = cmd' ∧ word = word' := by simpa using same
      have more : 20 < 0 + matchCount word table := by omega
      have stray := helpMatches_stray (c := c) byte (Nat.zero_le 20) more
      exact lt_irrefl 20 (all 20 stray)
    · intro few
      apply helpMatches_inside byte inside
      have le : ¬ 20 < matchCount word table := fun many => few ⟨cmd, word, rfl, many⟩
      omega
  · refine iff_of_true inside ?_
    rintro ⟨cmd, word, rfl, -⟩
    exact two rfl

/-- `complete_cmdv` stays within `cmdv` but for `DoHelpComplete`. -/
theorem completeCmdv_inside_iff (bytes : ∀ word ∈ argv, word.length < 2 ^ 8)
    (inside : c.Inside 20) :
    (completeCmdv table argv lastChar 20 c).1.Inside 20 ↔ ¬ HelpOverflows table argv := by
  have started : (c.store 0 none).Inside 20 := inside.store (by decide)
  have notTwo : argv.length ≠ 2 → ¬ HelpOverflows table argv := by
    rintro other ⟨cmd, word, rfl, -⟩
    exact other rfl
  unfold completeCmdv
  rw [if_neg (by decide : ¬ 20 < 2)]
  simp only
  split_ifs with none_ more
  · exact iff_of_true (listAll_inside (by decide) started (by decide)) (notTwo (by omega))
  · cases completes : (CmdTbl.shellFindCommand table (argv.getD 0 [])).bind CmdTbl.complete with
    | none =>
        refine iff_of_true (started.store (by decide)) ?_
        rintro ⟨cmd, word, rfl, isHelp, -⟩
        rw [List.getD_cons_zero, isHelp] at completes
        exact Option.some_ne_none _ completes
    | some complete =>
        cases complete with
        | doHelpComplete =>
            refine (doHelpComplete_inside_iff bytes started).trans (not_congr ?_)
            constructor
            · rintro ⟨cmd, word, rfl, many⟩
              exact ⟨cmd, word, rfl, completes, many⟩
            · rintro ⟨cmd, word, args, -, many⟩
              exact ⟨cmd, word, args, many⟩
        | other f =>
            refine iff_of_true (started.storeAll (f.inside argv lastChar 20)) ?_
            rintro ⟨cmd, word, rfl, isHelp, -⟩
            rw [List.getD_cons_zero, isHelp] at completes
            exact Completer.noConfusion (Option.some.inj completes)
  · have within : (listMatches 20 (argv.getD 0 []) table (c.store 0 none) 0).1.Inside 20 ∧
        (listMatches 20 (argv.getD 0 []) table (c.store 0 none) 0).2 < 20 :=
      listMatches_inside (by decide) started (Nat.zero_le 18)
    exact iff_of_true (within.1.store within.2) (notTwo (by omega))

end Matches

/-! ## What is appended -/

theorem commonLen_le (anchor t : List (BitVec 8)) (len : ℕ) : commonLen anchor t len ≤ len := by
  unfold commonLen
  split
  · next i found =>
      have inside := List.mem_range.mp (List.mem_of_find?_eq_some found)
      exact inside
  · exact le_rfl

theorem commonPrefix_le (anchor : List (BitVec 8)) (argv : ℕ → Option CString) (num j len : ℕ) :
    commonPrefix anchor argv num j len ≤ len := by
  induction num generalizing j len with
  | zero => exact le_rfl
  | succ num ih =>
      unfold commonPrefix
      split
      · exact le_rfl
      · exact (ih _ _).trans (commonLen_le _ _ _)

/-- The characters in common are characters of the first match. -/
theorem findCommonPrefix_le (argv : ℕ → Option CString) (num : ℕ) :
    findCommonPrefix argv num ≤ ((argv 0).elim [] fun word => word.1).length := by
  unfold findCommonPrefix
  cases argv 0 with
  | none => exact le_rfl
  | some anchor =>
      refine (commonPrefix_le _ _ _ _ _).trans ?_
      show toUnsigned 8 (anchor.1.length : ℤ) ≤ anchor.1.length
      rw [toUnsigned]
      omega

/-- What is inserted is part of a string, with a blank behind it or nothing. -/
structure Insertion.Proper (ins : Insertion) : Prop where
  len_le : ins.len ≤ ins.s.length
  nonzero : ∀ c ∈ ins.text, c ≠ 0

theorem insertion_proper {argv : ℕ → Option CString} {i : ℤ} {k : ℕ} {ins : Insertion}
    (is : insertion argv i k = some ins) : ins.Proper := by
  have string : ∀ c ∈ (argv 0).elim [] fun word => word.1, c ≠ 0 := by
    cases argv 0 with
    | none => exact fun c mem => absurd mem List.not_mem_nil
    | some word => exact word.2
  have rest : ∀ n, ∀ c ∈ (((argv 0).elim [] fun word => word.1).drop k).take n, c ≠ 0 :=
    fun n c mem => string c (List.mem_of_mem_drop (List.mem_of_mem_take mem))
  have common := findCommonPrefix_le argv (toUnsigned 8 i)
  simp only [insertion] at is
  split_ifs at is with one more
  · rw [← Option.some.inj is]
    refine ⟨le_rfl, ?_⟩
    intro c mem
    rcases List.mem_append.mp mem with inWord | blank
    · exact rest _ c inWord
    · rw [List.mem_singleton.mp blank]
      decide
  · rw [← Option.some.inj is]
    refine ⟨?_, ?_⟩
    · show findCommonPrefix argv (toUnsigned 8 i) - k ≤ _
      rw [List.length_drop]
      exact Nat.sub_le_sub_right common k
    · intro c mem
      rcases List.mem_append.mp mem with inWord | none_
      · exact rest _ c inWord
      · exact absurd none_ List.not_mem_nil

theorem Insertion.Proper.length_text {ins : Insertion} (proper : ins.Proper) :
    ins.text.length = ins.length := by
  rw [Insertion.text, Insertion.length, List.length_append, List.length_take_of_le proper.len_le]

/-! ## Strings in the two buffers -/

section Buffers

variable {buf : ℕ → BitVec 8} {str text : List (BitVec 8)}

theorem hasString_of (isString : IsString str) (chars : (List.range str.length).map buf = str)
    (stop : buf str.length = 0) : HasString buf 0 str :=
  exists_behind isString chars stop

/-- The copy in `tmp_buf`. -/
theorem hasString_strcpy (isString : IsString str) (tmpBuf : ℕ → BitVec 8) :
    HasString (fun j => if j < str.length then str.getD j 0 else if j = str.length then 0
      else tmpBuf j) 0 str := by
  apply hasString_of isString
  · apply map_range_eq rfl
    intro i h
    exact (if_pos h).trans (List.getD_eq_getElem _ _ h)
  · exact (if_neg (lt_irrefl _)).trans (if_pos rfl)

/-- A line with a text and a terminator stored behind. -/
theorem hasString_append (has : HasString buf 0 str) (isString : IsString (str ++ text)) :
    HasString (fun j => if str.length ≤ j ∧ j < str.length + text.length then
        text.getD (j - str.length) 0
      else if j = str.length + text.length then 0 else buf j) 0 (str ++ text) := by
  have char : ∀ i (h : i < str.length), buf i = str[i] := by
    intro i h
    have entry := Tokens.HasString.getElem (A := blankSeparated) has h
    rwa [Nat.zero_add] at entry
  apply hasString_of isString
  · apply map_range_eq rfl
    intro i h
    rw [List.length_append] at h
    by_cases inStr : i < str.length
    · rw [List.getElem_append_left inStr, if_neg (by omega), if_neg (by omega), char i inStr]
    · have here : str.length ≤ i ∧ i < str.length + text.length := ⟨not_lt.mp inStr, h⟩
      rw [List.getElem_append_right here.1, if_pos here, List.getD_eq_getElem]
  · rw [List.length_append, if_neg (by omega), if_pos rfl]

end Buffers

/-! ## A call of `cmd_auto_complete` -/

section Call

variable {str : List (BitVec 8)}

theorem scanned_splitCopy (isString : IsString str) (env : CompleteEnv) :
    ∃ tmpBuf, HasString tmpBuf 0 str ∧
      Tokens.Scanned blankSeparated (cbSize + 1) (20 + 1) 20 ⟨tmpBuf, env.argv, 0, [], [], false⟩ 0
        str (splitCopy env str) :=
  have has := hasString_strcpy isString env.tmpBuf
  ⟨_, has, Tokens.scan_scanned (A := blankSeparated) (by decide : 20 ≤ 20 + 1) has
    isString.nonzero env.argv⟩

/-- The words of the line, twenty at most. -/
theorem args_splitCopy (isString : IsString str) (env : CompleteEnv) :
    (splitCopy env str).args blankSeparated (cbSize + 1) = (words isblank str).take 20 :=
  Tokens.args_scan (A := blankSeparated) (by decide : 20 ≤ 20 + 1)
    (hasString_strcpy isString env.tmpBuf) isString.nonzero env.argv

/-- `argv` has room for the `NULL` behind the twentieth word. -/
theorem stray_splitCopy (isString : IsString str) (env : CompleteEnv) :
    (splitCopy env str).stray = [] := by
  obtain ⟨tmpBuf, -, scanned⟩ := scanned_splitCopy isString env
  refine scanned.stray_eq.trans ?_
  rw [if_neg]
  · rfl
  · rintro ⟨-, same⟩
    have places : 0 + 20 = 20 + 1 := same
    omega

/-- The terminators go into the copy. -/
theorem cuts_splitCopy (isString : IsString str) (env : CompleteEnv) :
    ∀ i ∈ (splitCopy env str).cuts, i < str.length := by
  obtain ⟨tmpBuf, -, scanned⟩ := scanned_splitCopy isString env
  intro i mem
  rcases scanned.cuts_inside i mem with none_ | inside
  · exact absurd none_ List.not_mem_nil
  · omega

/-- A word is no longer than the copy. -/
theorem length_word (isString : IsString str) (env : CompleteEnv) :
    ∀ word ∈ (words isblank str).take 20, word.length < 2 ^ 8 := by
  intro word mem
  obtain ⟨tmpBuf, -, scanned⟩ := scanned_splitCopy isString env
  obtain ⟨i, h, rfl⟩ := List.mem_iff_getElem.mp mem
  obtain ⟨before, -, -, has⟩ := scanned.argv_eq i _ (List.getElem?_eq_getElem h)
  have inside := has.length_lt
  unfold cbSize at inside
  omega

/-- Lines of two words are not cut off. -/
theorem helpOverflows_take (table : List CmdTbl) (ws : List (List (BitVec 8))) :
    HelpOverflows table (ws.take 20) ↔ HelpOverflows table ws := by
  rcases Nat.lt_or_ge 20 ws.length with many | few
  · have long : (ws.take 20).length = 20 := List.length_take_of_le many.le
    refine iff_of_false ?_ ?_
    · rintro ⟨cmd, word, two, -⟩
      rw [two] at long
      have length : 2 = 20 := long
      omega
    · rintro ⟨cmd, word, rfl, -⟩
      have more : 20 < 2 := many
      omega
  · rw [List.take_of_length_le few]

variable {env : CompleteEnv} {argv : List (List (BitVec 8))} {cmdv : ℕ → Option CString} {i : ℤ}
variable {cnt : ℕ} {r : Completed}

/-- With the matches at hand nothing is stored but to the line. -/
theorem addMatches_stores (env : CompleteEnv) (argv : List (List (BitVec 8)))
    (cmdv : ℕ → Option CString) (i : ℤ) (cnt : ℕ) (r : Completed) :
    (addMatches env argv cmdv i cnt r).tmpStores = r.tmpStores ∧
      (addMatches env argv cmdv i cnt r).argvStray = r.argvStray ∧
        (addMatches env argv cmdv i cnt r).cmdvStores = r.cmdvStores := by
  unfold addMatches
  split_ifs
  · exact ⟨rfl, rfl, rfl⟩
  · exact ⟨rfl, rfl, rfl⟩
  · exact ⟨rfl, rfl, rfl⟩
  · cases insertion cmdv i (argv.getLastD []).length with
    | none => exact ⟨rfl, rfl, rfl⟩
    | some ins =>
        simp only
        split_ifs <;> exact ⟨rfl, rfl, rfl⟩

/-- The line as completion leaves it: with a text behind it that fits, or as it was. -/
structure LineLeft (str : List (BitVec 8)) (text : List (BitVec 8)) (r : Completed) : Prop where
  isString : IsString (str ++ text)
  has : HasString r.buf 0 (str ++ text)
  np_eq : r.np = (str ++ text).length
  inside : ∀ i ∈ r.bufStores, i ≤ cbSize
  done : r.done = true ∨ text = []

/-- Where nothing is stored to the line. -/
theorem LineLeft.kept {r' : Completed} (left : LineLeft str [] r) (buf_eq : r'.buf = r.buf)
    (np_eq : r'.np = r.np) (stores_eq : r'.bufStores = r.bufStores) : LineLeft str [] r' where
  isString := left.isString
  has := buf_eq ▸ left.has
  np_eq := np_eq.trans left.np_eq
  inside := stores_eq ▸ left.inside
  done := .inr rfl

/-- Where an insertion has been found to fit. -/
theorem LineLeft.insert {r' : Completed} {ins : Insertion} (left : LineLeft str [] r)
    (proper : ins.Proper) (cnt_eq : cnt = str.length) (full : ¬ r.np + ins.length ≥ cbSize - 2)
    (buf_eq : r'.buf = fun j =>
      if cnt ≤ j ∧ j < cnt + ins.length then ins.text.getD (j - cnt) 0
      else if j = cnt + ins.length then 0 else r.buf j)
    (np_eq : r'.np = toUnsigned 8 (r.np + ins.length))
    (stores_eq : r'.bufStores = List.range' cnt (ins.length + 1)) (done : r'.done = true) :
    LineLeft str ins.text r' := by
  have np := left.np_eq
  have has := left.has
  have isString := left.isString
  rw [List.append_nil] at np has isString
  have length : (str ++ ins.text).length = str.length + ins.length := by
    rw [List.length_append, proper.length_text]
  have fits : str.length + ins.length < cbSize - 2 := by omega
  have whole : IsString (str ++ ins.text) := by
    refine ⟨by omega, ?_⟩
    intro c mem
    rcases List.mem_append.mp mem with inStr | inText
    · exact isString.nonzero c inStr
    · exact proper.nonzero c inText
  refine ⟨whole, ?_, ?_, ?_, .inl done⟩
  · rw [buf_eq, cnt_eq, ← proper.length_text]
    exact hasString_append has whole
  · rw [np_eq, np, length]
    exact toUnsigned_natCast (by unfold cbSize at fits; omega)
  · intro i mem
    rw [stores_eq, List.mem_range'_1, cnt_eq] at mem
    omega

theorem addMatches_line (left : LineLeft str [] r) (started : r.done = true)
    (cnt_eq : cnt = str.length) :
    ∃ text, LineLeft str text (addMatches env argv cmdv i cnt r) := by
  unfold addMatches
  split_ifs
  · exact ⟨[], left⟩
  · exact ⟨[], left.kept rfl rfl rfl⟩
  · exact ⟨[], left.kept rfl rfl rfl⟩
  · cases found : insertion cmdv i (argv.getLastD []).length with
    | none => exact ⟨[], left.kept rfl rfl rfl⟩
    | some ins =>
        have proper := insertion_proper found
        by_cases full : r.np + ins.length ≥ cbSize - 2
        · refine ⟨[], ?_⟩
          simp only [if_pos full]
          exact left.kept rfl rfl rfl
        · refine ⟨ins.text, ?_⟩
          simp only [if_neg full]
          exact left.insert proper cnt_eq full rfl rfl rfl started

end Call

/-! ## A TAB at the end of the line -/

section Tab

variable {env : CompleteEnv} {s : Cread}

/-- The call of `cmd_auto_complete` a TAB makes. -/
def tabCall (env : CompleteEnv) (s : Cread) : Completed :=
  cmdAutoComplete env (s.store s.num 0).buf s.num (toUnsigned 8 (env.prompt.length + s.eolNum))

/-- A TAB stores within the four arrays, and leaves a line of the length it says. -/
structure TabSafe (env : CompleteEnv) (s : Cread) : Prop where
  tmp_buf : ∀ i ∈ (tabCall env s).tmpStores, i < cbSize
  argv : (tabCall env s).argvStray = []
  cmdv : ∀ i ∈ (tabCall env s).cmdvStores, i < 20
  buf : ∀ i ∈ (tabCall env s).bufStores, i ≤ cbSize
  strlen_eq : (s.complete env.shell).cstr.length = (s.complete env.shell).eolNum

/-- What `cread_line` makes of the call. -/
theorem complete_eq (env : CompleteEnv) (atEnd : s.num = s.eolNum) :
    (s.complete env.shell).buf = (tabCall env s).buf ∧
      (s.complete env.shell).eolNum = if (tabCall env s).done then
          toUnsigned 8 (s.eolNum + toUnsigned 8 ((tabCall env s).np - s.num))
        else s.eolNum := by
  have notBefore : ¬ s.num < s.eolNum := by omega
  have call : cmdAutoComplete env (s.store s.num 0).buf (s.store s.num 0).num
      (toUnsigned 8 (env.prompt.length + (s.store s.num 0).eolNum)) = tabCall env s := rfl
  simp only [Cread.complete, if_neg notBefore, CompleteEnv.shell, call]
  generalize tabCall env s = r
  split_ifs <;> exact ⟨rfl, rfl⟩

/-- The line as the call finds it. -/
theorem hasString_store (isString : IsString s.line) (atEnd : s.num = s.eolNum) :
    HasString (s.store s.num 0).buf 0 s.line := by
  apply hasString_of isString
  · rw [length_line, atEnd]
    exact map_buf_terminated s
  · rw [length_line, ← atEnd]
    exact Function.update_self _ _ _

theorem tabCall_stores (env : CompleteEnv) (isString : IsString s.line) (atEnd : s.num = s.eolNum) :
    (tabCall env s).tmpStores = List.range (s.line.length + 1) ++ (splitCopy env s.line).cuts ∧
      (tabCall env s).argvStray = [] ∧
        ((∀ i ∈ (tabCall env s).cmdvStores, i < 20) ↔
          ¬ HelpOverflows env.table (words isblank s.line)) := by
  have string : stringAt (s.store s.num 0).buf 0 = s.line :=
    (hasString_store isString atEnd).stringAt isString.nonzero
  have none_ : (⟨env.cmdv, []⟩ : Cmdv).Inside 20 := fun i mem => absurd mem List.not_mem_nil
  simp only [tabCall, cmdAutoComplete, string, addMatches_stores, stray_splitCopy isString,
    args_splitCopy isString]
  refine ⟨trivial, trivial, ?_⟩
  rw [← helpOverflows_take]
  exact completeCmdv_inside_iff (length_word isString env) none_

theorem tabCall_line (env : CompleteEnv) (isString : IsString s.line) (atEnd : s.num = s.eolNum) :
    ∃ text, LineLeft s.line text (tabCall env s) := by
  have has := hasString_store isString atEnd
  have string := has.stringAt isString.nonzero
  have count : toUnsigned 8 s.line.length = s.line.length := by
    apply toUnsigned_natCast
    exact lt_of_le_of_lt isString.length_le cbSize_lt
  simp only [tabCall, cmdAutoComplete, string]
  refine addMatches_line ?_ rfl count
  refine ⟨?_, ?_, ?_, ?_, .inr rfl⟩
  · rwa [List.append_nil]
  · rwa [List.append_nil]
  · rw [List.append_nil, length_line]
    exact atEnd
  · exact fun i mem => absurd mem List.not_mem_nil

/-- The line is as long as `eol_num` says. -/
theorem strlen_complete (env : CompleteEnv) (isString : IsString s.line)
    (atEnd : s.num = s.eolNum) :
    (s.complete env.shell).cstr.length = (s.complete env.shell).eolNum := by
  obtain ⟨text, left⟩ := tabCall_line env isString atEnd
  obtain ⟨buf_eq, eol_eq⟩ := complete_eq env atEnd
  have fits := left.isString.length_le
  have cstr : (s.complete env.shell).cstr = s.line ++ text := by
    rw [← left.has.stringAt left.isString.nonzero, ← buf_eq]
    rfl
  have length : (s.line ++ text).length = s.eolNum + text.length := by
    rw [List.length_append, length_line]
  rw [cstr, eol_eq, left.np_eq, atEnd, length]
  rw [length] at fits
  have byte : s.eolNum + text.length < 2 ^ 8 := lt_of_le_of_lt fits cbSize_lt
  rcases left.done with done | rfl
  · have added : ((s.eolNum + text.length : ℕ) : ℤ) - s.eolNum = text.length := by omega
    rw [if_pos done, added, toUnsigned_natCast (by omega)]
    exact (toUnsigned_natCast byte).symm
  · have kept : toUnsigned 8 ((s.eolNum : ℤ) + toUnsigned 8 (((s.eolNum + 0 : ℕ) : ℤ) - s.eolNum)) =
        s.eolNum := by
      have zero : toUnsigned 8 0 = 0 := rfl
      rw [Nat.add_zero, sub_self, zero, Nat.cast_zero, add_zero]
      exact toUnsigned_natCast (lt_of_le_of_lt (Nat.le_add_right _ _) byte)
    rw [List.length_nil, kept, ite_self, Nat.add_zero]

/-- The terminator of the line is copied with it. -/
theorem length_mem_tmpStores (env : CompleteEnv) {s : Cread} (isString : IsString s.line)
    (atEnd : s.num = s.eolNum) : s.line.length ∈ (tabCall env s).tmpStores := by
  rw [(tabCall_stores env isString atEnd).1]
  exact List.mem_append_left _ (List.mem_range.mpr (Nat.lt_add_one _))

/-- **A TAB stays within its arrays** unless the line takes the whole buffer, or asks for help
on a word that more than twenty names begin with. -/
theorem tab_iff (env : CompleteEnv) {s : Cread} (isString : IsString s.line)
    (atEnd : s.num = s.eolNum) :
    TabSafe env s ↔ s.line.length < cbSize ∧ ¬ HelpOverflows env.table (words isblank s.line) := by
  obtain ⟨tmp, argv, cmdv⟩ := tabCall_stores env isString atEnd
  constructor
  · intro safe
    exact ⟨safe.tmp_buf _ (length_mem_tmpStores env isString atEnd), cmdv.mp safe.cmdv⟩
  · rintro ⟨short, few⟩
    obtain ⟨text, left⟩ := tabCall_line env isString atEnd
    refine ⟨?_, argv, cmdv.mpr few, left.inside, strlen_complete env isString atEnd⟩
    intro i mem
    rw [tmp] at mem
    rcases List.mem_append.mp mem with copied | cut
    · have inCopy := List.mem_range.mp copied
      omega
    · exact (cuts_splitCopy isString env i cut).trans short

/-- Over empty memory, and with formats that have no conversions. -/
def CompleteEnv.over (table : List CmdTbl) : CompleteEnv where
  table := table
  prompt := []
  tmpBuf _ := 0
  argv _ := none
  cmdv _ := none
  format fmt := fmt
  stack _ := 0

/-- The cursor behind a line. -/
def behindLine (line : List (BitVec 8)) : Cread :=
  ⟨fun i => line.getD i 0, line.length, line.length, true, [], Hist.histInit, [], [], 0⟩

theorem line_behindLine (line : List (BitVec 8)) : (behindLine line).line = line := by
  apply List.ext_getElem
  · simp [Cread.line, behindLine]
  · intro i _ inside
    simp [Cread.line, behindLine, inside]

/-- The commands of the shell itself. -/
def shellCommands : List CmdTbl :=
  [⟨⟨ascii "help", by decide⟩, some .doHelpComplete⟩, ⟨⟨ascii "history", by decide⟩, none⟩]

/-- `help hi`. -/
theorem tab_iff_help :
    TabSafe (.over shellCommands) (behindLine (ascii "help hi")) ↔
      (behindLine (ascii "help hi")).line.length < cbSize ∧
        ¬ HelpOverflows shellCommands (words isblank (behindLine (ascii "help hi")).line) :=
  tab_iff (.over shellCommands) (by decide) rfl

/-- With a command that switches something on or off. -/
def switchCommands : List CmdTbl :=
  ⟨⟨ascii "led", by decide⟩, some (.other (.ofWords
    [⟨ascii "on", by decide⟩, ⟨ascii "off", by decide⟩]))⟩ :: shellCommands

example : (tabCall (.over switchCommands) (behindLine (ascii "led of"))).sent = ascii "f " ∧
    (tabCall (.over switchCommands) (behindLine (ascii "led of"))).done = true := by
  decide +kernel

/-- A line of 128 characters. -/
theorem not_tab : ¬ ∀ (env : CompleteEnv) (s : Cread), (∀ c ∈ env.table, c.name.1.length ≤ 32) →
    IsString s.line → s.num = s.eolNum → TabSafe env s := by
  intro all
  have isString : IsString (behindLine (List.replicate 128 0x61)).line := by
    rw [line_behindLine]
    refine ⟨List.length_replicate.le, fun c mem => ?_⟩
    rw [List.eq_of_mem_replicate mem]
    decide
  have safe := all (.over shellCommands) (behindLine (List.replicate 128 0x61))
    (by decide) isString rfl
  have stored := length_mem_tmpStores (.over shellCommands) isString rfl
  rw [line_behindLine, List.length_replicate] at stored
  exact absurd (safe.tmp_buf 128 stored) (by decide)

end Tab

end CannonCar.Shell
