import CannonCar.Shell.Keys
import CannonCar.Shell.Print

/-!
# What the terminal shows

A terminal is a row of cells with a cursor.  Where it shows a line, a piece of text sent
replaces a piece of the line and a backspace moves the cursor, so that each mix of echo,
blanks and backspaces that `cread_line` sends can be followed on lists.

The one thing in the way is `ERASE_TO_EOL` over all of a full line: its blanks are a text
that `shell_printf` has no room for, and one of them goes out as the terminator.

## What is load-bearing

**What a terminal knows.**  A printable byte goes into the cell of the cursor and the cursor moves
on, a backspace moves it back, and everything else leaves the row alone.  The row has no end on
either side, so that too many backspaces show up as a cursor in the wrong place.

**`Shows line num`** says that the cells read the line, blanks behind it, with the cursor at `num`.
What a handler sends is a sequence of replacements of a piece of the line and of backspaces.

**The condition is on the state before the key** (`ErasesLess`): the key does not make the editor
erase all of a line that takes the whole buffer.  The equivalence is along the run.
-/

namespace CannonCar.Shell

open Cread MachineInt RecallRing Trajectory

/-! ## The row -/

/-- The row of cells from the prompt on, and the cursor. -/
structure Terminal where
  cells : ℤ → BitVec 8
  cursor : ℤ

namespace Terminal

/-- A byte sent: BEL, NUL and the rest have no effect on the row. -/
def receive (t : Terminal) (c : BitVec 8) : Terminal :=
  if Printable c then ⟨Function.update t.cells t.cursor c, t.cursor + 1⟩
  else if c = 0x08 then { t with cursor := t.cursor - 1 }
  else t

/-- Behind a new prompt. -/
def blank : Terminal := ⟨fun _ => 0x20, 0⟩

/-- The row shows `line` and blanks behind it, with the cursor at `num`. -/
structure Shows (t : Terminal) (line : List (BitVec 8)) (num : ℕ) : Prop where
  cells_eq : ∀ i : ℕ, t.cells i = line.getD i 0x20
  cursor_eq : t.cursor = num

variable {t : Terminal} {line : List (BitVec 8)} {num : ℕ}

theorem shows_blank : blank.Shows [] 0 := ⟨fun _ => rfl, rfl⟩

theorem receive_backspace (t : Terminal) : t.receive 0x08 = { t with cursor := t.cursor - 1 } := by
  rw [receive, if_neg (by decide), if_pos rfl]

/-- Backspaces move the cursor. -/
theorem run_backspaces (t : Terminal) (n : ℕ) :
    run receive t (List.replicate n 0x08) = { t with cursor := t.cursor - n } := by
  induction n generalizing t with
  | zero => rw [List.replicate_zero, run_nil, Nat.cast_zero, sub_zero]
  | succ n ih =>
      rw [List.replicate_succ, run_cons, receive_backspace, ih, Nat.cast_add_one]
      congr 1
      exact sub_sub _ _ _ |>.trans (congrArg _ (add_comm _ _))

theorem Shows.back {n : ℕ} (shows_ : t.Shows line (num + n)) :
    (run receive t (List.replicate n 0x08)).Shows line num := by
  rw [run_backspaces]
  refine ⟨shows_.cells_eq, ?_⟩
  show t.cursor - n = num
  rw [shows_.cursor_eq, Nat.cast_add, add_sub_cancel_right]

/-- One character sent replaces one of the line. -/
theorem Shows.receive {c : BitVec 8} (shows_ : t.Shows line num) (num_le : num ≤ line.length)
    (printable : Printable c) :
    (t.receive c).Shows (line.take num ++ c :: line.drop (num + 1)) (num + 1) := by
  have taken : (line.take num).length = num := List.length_take_of_le num_le
  rw [Terminal.receive, if_pos printable]
  refine ⟨fun i => ?_, ?_⟩
  · show Function.update t.cells t.cursor c i = _
    rw [shows_.cursor_eq, List.getD_eq_getElem?_getD]
    rcases lt_trichotomy i num with before | here | after
    · rw [Function.update_of_ne (by omega), shows_.cells_eq, List.getD_eq_getElem?_getD,
        List.getElem?_append_left (by rwa [taken]), List.getElem?_take_of_lt before]
    · rw [here, Function.update_self, List.getElem?_append_right (le_of_eq taken), taken,
        Nat.sub_self, List.getElem?_cons_zero, Option.getD_some]
    · obtain ⟨k, place⟩ := Nat.exists_eq_add_of_lt after
      rw [Function.update_of_ne (by omega), shows_.cells_eq, List.getD_eq_getElem?_getD,
        List.getElem?_append_right (by omega), taken, place]
      rw [show num + k + 1 - num = k + 1 by omega, List.getElem?_cons_succ, List.getElem?_drop,
        Nat.add_right_comm]
  · show t.cursor + 1 = _
    rw [shows_.cursor_eq, Nat.cast_add_one]

/-- A text sent replaces as much of the line. -/
theorem Shows.text {text : List (BitVec 8)} (shows_ : t.Shows line num) (num_le : num ≤ line.length)
    (printable : ∀ c ∈ text, Printable c) :
    (run Terminal.receive t text).Shows (line.take num ++ text ++ line.drop (num + text.length))
      (num + text.length) := by
  induction text generalizing t line num with
  | nil =>
      rw [List.append_nil, List.length_nil, Nat.add_zero, List.take_append_drop]
      exact shows_
  | cons c text ih =>
      have taken : (line.take num ++ [c]).length = num + 1 := by
        rw [List.length_append, List.length_take_of_le num_le, List.length_singleton]
      have first := shows_.receive num_le (printable c List.mem_cons_self)
      rw [List.append_cons] at first
      have room : num + 1 ≤ (line.take num ++ [c] ++ line.drop (num + 1)).length := by
        rw [List.length_append, taken]
        exact Nat.le_add_right _ _
      have rest := ih first room (fun c mem => printable c (List.mem_cons_of_mem _ mem))
      rw [List.take_left' taken, List.drop_append, taken, Nat.add_sub_cancel_left,
        List.drop_of_length_le (by omega), List.nil_append, List.drop_drop] at rest
      rw [run_cons, List.length_cons, List.append_cons _ c text, Nat.add_comm text.length 1,
        ← Nat.add_assoc]
      exact rest

/-- A text sent over the rest of the line, and backspaces to `back`. -/
theorem Shows.overtype {text : List (BitVec 8)} {back n : ℕ} (shows_ : t.Shows line num)
    (num_le : num ≤ line.length) (printable : ∀ c ∈ text, Printable c)
    (reach : line.length ≤ num + text.length) (cursor : num + text.length = back + n) :
    (run Terminal.receive t (text ++ List.replicate n 0x08)).Shows
      (line.take num ++ text) back := by
  have written := shows_.text num_le printable
  rw [List.drop_of_length_le reach, List.append_nil, cursor] at written
  rw [run_append]
  exact written.back

theorem printable_blank : Printable 0x20 := by decide

/-- The rest of the line moved up over the character at `k`, with a blank behind it. -/
theorem Shows.erase {k : ℕ} (shows_ : t.Shows line k) (inside : k < line.length)
    (printable : ∀ c ∈ line, Printable c) :
    (run Terminal.receive t (line.drop (k + 1) ++ [0x20] ++
      List.replicate (line.length - k) 0x08)).Shows (line.eraseIdx k ++ [0x20]) k := by
  have length : (line.drop (k + 1) ++ [0x20]).length = line.length - k := by
    rw [List.length_append, List.length_drop, List.length_singleton]
    omega
  rw [List.eraseIdx_eq_take_drop_succ, List.append_assoc (line.take k)]
  apply shows_.overtype inside.le
  · intro c mem
    rcases List.mem_append.mp mem with rest | blank_
    · exact printable c (List.mem_of_mem_drop rest)
    · rw [List.mem_singleton.mp blank_]
      exact printable_blank
  · omega
  · rw [length]

/-- Blanks at the end of a line cannot be told from those behind it. -/
theorem Shows.blanks {n : ℕ} (shows_ : t.Shows (line ++ List.replicate n 0x20) num) :
    t.Shows line num := by
  refine ⟨fun i => ?_, shows_.cursor_eq⟩
  rw [shows_.cells_eq, List.getD_eq_getElem?_getD, List.getD_eq_getElem?_getD]
  rcases lt_or_ge i line.length with inside | behind
  · rw [List.getElem?_append_left inside]
  · rw [List.getElem?_append_right behind, List.getElem?_eq_none behind, List.getElem?_replicate]
    split_ifs <;> rfl

end Terminal

/-! ## The handlers on the terminal -/

namespace Cread

open Terminal

/-- What has become of the row since the prompt. -/
def terminal (s : Cread) : Terminal := run receive blank s.out

/-- The terminal shows the line. -/
def ShowsLine (s : Cread) : Prop := s.terminal.Shows s.line s.num

variable {s s' : Cread} {line sent : List (BitVec 8)} {num beeps : ℕ}

/-- A step is followed on the row by what it sends. -/
theorem Becomes.terminal_eq (b : Becomes s s' line num sent beeps) :
    s'.terminal = run receive s.terminal sent := by
  rw [terminal, terminal, b.out_eq, run_append]

theorem Becomes.showsLine (b : Becomes s s' line num sent beeps)
    (shows_ : (run receive s.terminal sent).Shows line num) : s'.ShowsLine := by
  rw [ShowsLine, b.terminal_eq, b.line_eq, b.num_eq]
  exact shows_

/-- The line ends in blanks as far as the row can tell. -/
theorem Becomes.showsLine_blank (b : Becomes s s' line num sent beeps)
    (shows_ : (run receive s.terminal sent).Shows (line ++ [0x20]) num) : s'.ShowsLine :=
  b.showsLine (Shows.blanks (n := 1) shows_)

/-! ### Characters -/

theorem showsLine_beep (shows_ : s.ShowsLine) : s.shellBeep.ShowsLine :=
  (becomes_shellBeep s).showsLine shows_

theorem showsLine_home (shows_ : s.ShowsLine) : s.beginningOfLine.ShowsLine := by
  apply (becomes_beginningOfLine s).showsLine
  apply Shows.back
  rw [Nat.zero_add]
  exact shows_

theorem showsLine_back (shows_ : s.ShowsLine) (some_ : s.num ≠ 0) :
    ({ s.puts [0x08] with num := s.num - 1 } : Cread).ShowsLine := by
  apply (becomes_back s).showsLine
  apply Shows.back (n := 1)
  rw [Nat.sub_add_cancel (Nat.pos_of_ne_zero some_)]
  exact shows_

/-- The characters of a part of the line. -/
theorem printable_drop (printable : ∀ c ∈ s.line, Printable c) (n : ℕ) :
    ∀ c ∈ s.line.drop n, Printable c :=
  fun c mem => printable c (List.mem_of_mem_drop mem)

theorem showsLine_forward (shows_ : s.ShowsLine) (fits : s.Fits) (inside : s.num < s.eolNum)
    (printable : ∀ c ∈ s.line, Printable c) :
    ({ s.puts [s.buf s.num] with num := toUnsigned 8 (s.num + 1) } : Cread).ShowsLine := by
  have at_ : s.num < s.line.length := by rwa [length_line]
  have char : s.line[s.num] = s.buf s.num := getElem_line s s.num at_
  have typed := shows_.receive at_.le (printable _ (List.getElem_mem at_))
  rw [List.append_cons, List.take_append_getElem at_, List.take_append_drop, char] at typed
  exact (becomes_forward fits inside).showsLine typed

theorem showsLine_refresh (shows_ : s.ShowsLine) (fits : s.Fits)
    (printable : ∀ c ∈ s.line, Printable c) : s.refreshToEol.ShowsLine := by
  have num_le := fits.num_le
  have length : (s.line.drop s.num).length = s.eolNum - s.num := by
    rw [List.length_drop, length_line]
  have cursor : s.num + (s.line.drop s.num).length = s.eolNum + 0 := by
    rw [length]
    omega
  have typed := shows_.overtype (by rwa [length_line]) (printable_drop printable s.num)
    (by rw [length, length_line]; omega) cursor
  rw [List.take_append_drop, List.replicate_zero, List.append_nil] at typed
  exact (becomes_refreshToEol fits).showsLine typed

theorem showsLine_creadAddChar {c : BitVec 8} (shows_ : s.ShowsLine) (fits : s.Fits)
    (printable : ∀ c ∈ s.line, Printable c) (typed : Printable c) :
    (s.creadAddChar c s.insert).ShowsLine := by
  have num_le := fits.num_le
  have num_le' : s.num ≤ s.line.length := by rwa [length_line]
  by_cases full : s.eolNum = cbSize ∧ (s.insert = true ∨ s.num = s.eolNum)
  · rw [creadAddChar_full c full.2 full.1]
    exact showsLine_beep shows_
  have room (grows : s.insert = true ∨ s.num = s.eolNum) : s.eolNum < cbSize :=
    lt_of_le_of_ne fits.eol_le fun eq => full ⟨eq, grows⟩
  cases mode : s.insert with
  | true =>
      have length : (c :: s.line.drop s.num).length = s.eolNum - s.num + 1 := by
        rw [List.length_cons, List.length_drop, length_line]
      have inserted : s.line.take s.num ++ c :: s.line.drop s.num = s.line.insertIdx s.num c := by
        rw [← drop_insertIdx_self s.line c num_le',
          ← List.take_insertIdx_eq_take_of_le s.line c s.num s.num le_rfl, List.take_append_drop]
      apply (becomes_creadAddChar_insert fits c (room (Or.inl mode))).showsLine
      rw [← inserted]
      apply shows_.overtype num_le'
      · intro c' mem
        rcases List.mem_cons.mp mem with rfl | rest
        · exact typed
        · exact printable_drop printable _ c' rest
      · rw [length, length_line]
        omega
      · rw [length]
        omega
  | false =>
      have written := shows_.receive num_le' typed
      rcases num_le.lt_or_eq with inside | atEnd
      · rw [← List.set_eq_take_cons_drop c (by rwa [length_line])] at written
        exact (becomes_creadAddChar_overwrite fits c inside).showsLine written
      · rw [List.take_of_length_le (by rw [length_line, atEnd]),
          List.drop_of_length_le (by rw [length_line, atEnd]; exact Nat.le_succ _)] at written
        exact (becomes_creadAddChar_append fits c (room (Or.inr atEnd)) atEnd).showsLine written

theorem showsLine_deleteChar (shows_ : s.ShowsLine) (fits : s.Fits)
    (printable : ∀ c ∈ s.line, Printable c) : s.deleteChar.ShowsLine := by
  by_cases inside : s.num < s.eolNum
  · have erased := shows_.erase (by rwa [length_line]) printable
    rw [length_line] at erased
    exact (becomes_deleteChar fits inside).showsLine_blank erased
  · rw [deleteChar, if_neg inside]
    exact shows_

theorem showsLine_backspace (shows_ : s.ShowsLine) (fits : s.Fits)
    (printable : ∀ c ∈ s.line, Printable c) : s.backspace.ShowsLine := by
  by_cases some_ : s.num ≠ 0
  · have num_le := fits.num_le
    have next : s.num - 1 + 1 = s.num := Nat.sub_add_cancel (Nat.pos_of_ne_zero some_)
    have moved : (run receive s.terminal [0x08]).Shows s.line (s.num - 1) := by
      apply Shows.back (n := 1)
      rwa [next]
    have erased := moved.erase (by rw [length_line]; omega) printable
    have backs : s.eolNum - (s.num - 1) = s.eolNum - s.num + 1 := by omega
    rw [next, length_line, backs] at erased
    exact (becomes_backspace fits some_).showsLine_blank erased
  · rw [backspace, if_neg some_]
    exact shows_

/-! ### Erasing -/

theorem shellPrintf_blanks (env : ShellEnv) {n : ℕ} (short : n < cbSize) :
    shellPrintf env (List.replicate n 0x20) = List.replicate n 0x20 :=
  shellPrintf_short env (by rwa [List.length_replicate])

/-- The blanks of a full line lose their last one to the terminator. -/
theorem shellPrintf_full (env : ShellEnv) :
    shellPrintf env (List.replicate cbSize 0x20) = List.replicate (cbSize - 1) 0x20 ++ [0] := by
  have length : (List.replicate cbSize (0x20 : BitVec 8)).length = cbSize := List.length_replicate
  rw [shellPrintf_long env length.ge (by rw [length]; exact cbSize_lt), List.take_replicate, length,
    Nat.min_eq_left (Nat.sub_le _ _), Nat.sub_self]
  rfl

/-- Erasing less than a full line. -/
theorem shows_erasure (env : ShellEnv) {t : Terminal} (shows_ : t.Shows line num)
    (num_le : num ≤ line.length) (short : line.length - num < cbSize) :
    (run receive t (erasure env (line.length - num))).Shows (line.take num) num := by
  have length := List.length_replicate (n := line.length - num) (a := (0x20 : BitVec 8))
  apply Shows.blanks (n := line.length - num)
  rw [erasure, shellPrintf_blanks env short]
  apply shows_.overtype num_le
  · intro c mem
    rw [List.eq_of_mem_replicate mem]
    exact printable_blank
  · omega
  · omega

/-- Text moves the cursor whatever the row shows. -/
theorem cursor_text (t : Terminal) {text : List (BitVec 8)} (printable : ∀ c ∈ text, Printable c) :
    (run receive t text).cursor = t.cursor + text.length := by
  induction text generalizing t with
  | nil => exact (add_zero _).symm
  | cons c text ih =>
      have first : (t.receive c).cursor = t.cursor + 1 := by
        rw [receive, if_pos (printable c List.mem_cons_self)]
      rw [run_cons, ih _ fun c mem => printable c (List.mem_cons_of_mem _ mem), first,
        List.length_cons, Nat.cast_add_one, add_assoc, add_comm (1 : ℤ)]

/-- Over a full line the cursor ends up one cell too far to the left. -/
theorem cursor_erasure_full (env : ShellEnv) (t : Terminal) :
    (run receive t (erasure env cbSize)).cursor = t.cursor - 1 := by
  have blanks : ∀ c ∈ List.replicate (cbSize - 1) (0x20 : BitVec 8), Printable c := by
    intro c mem
    rw [List.eq_of_mem_replicate mem]
    exact printable_blank
  have terminator (t : Terminal) : run receive t [0] = t := rfl
  rw [erasure, shellPrintf_full, run_append, run_append, terminator, run_backspaces]
  show (run receive t _).cursor - _ = _
  rw [cursor_text t blanks, List.length_replicate]
  unfold cbSize
  omega

theorem showsLine_eraseToEol_iff (env : ShellEnv) (shows_ : s.ShowsLine) (fits : s.Fits) :
    (s.eraseToEol env).ShowsLine ↔ s.eolNum - s.num < cbSize := by
  have erased := becomes_eraseToEol env fits
  constructor
  · intro after
    by_contra long
    have full : s.eolNum - s.num = cbSize :=
      le_antisymm ((Nat.sub_le _ _).trans fits.eol_le) (not_lt.mp long)
    have cursor := after.cursor_eq
    rw [erased.terminal_eq, full, cursor_erasure_full, shows_.cursor_eq, erased.num_eq] at cursor
    omega
  · intro short
    have shown := shows_erasure env shows_ (by rw [length_line]; exact fits.num_le)
      (by rwa [length_line])
    rw [length_line] at shown
    exact erased.showsLine shown

theorem showsLine_kill_iff (env : ShellEnv) (shows_ : s.ShowsLine) (fits : s.Fits) :
    (s.beginningOfLine.eraseToEol env).ShowsLine ↔ s.eolNum < cbSize := by
  have home : s.beginningOfLine.Fits := ⟨Nat.zero_le _, fits.eol_le⟩
  exact showsLine_eraseToEol_iff env (showsLine_home shows_) home

theorem showsLine_recallLine_iff (env : ShellEnv) (shows_ : s.ShowsLine) (fits : s.Fits)
    {hist : Hist} {hline : List (BitVec 8)} (isString : IsString hline)
    (printable : ∀ c ∈ hline, Printable c) :
    (s.recallLine env (hist, some hline)).ShowsLine ↔ s.eolNum < cbSize := by
  have home : s.beginningOfLine.Fits := ⟨Nat.zero_le _, fits.eol_le⟩
  have homeShows := showsLine_home shows_
  have killed := becomes_kill env fits
  have recalled := becomes_recallLine env fits hist isString
  have terminal : (s.recallLine env (hist, some hline)).terminal =
      run receive (s.beginningOfLine.eraseToEol env).terminal hline := by
    rw [killed.terminal_eq, ← run_append]
    exact recalled.terminal_eq
  constructor
  · intro after
    by_contra long
    have full : s.eolNum = cbSize := le_antisymm fits.eol_le (not_lt.mp long)
    have killedCursor : (s.beginningOfLine.eraseToEol env).terminal.cursor = -1 := by
      have erased := (becomes_eraseToEol env home).terminal_eq
      have width : s.beginningOfLine.eolNum - s.beginningOfLine.num = cbSize := full
      rw [erased, width, cursor_erasure_full, homeShows.cursor_eq]
      rfl
    have cursor := after.cursor_eq
    rw [terminal, cursor_text _ printable, killedCursor, recalled.num_eq] at cursor
    omega
  · intro short
    have empty := (showsLine_kill_iff env shows_ fits).mpr short
    rw [ShowsLine, killed.line_eq, killed.num_eq] at empty
    have shown := empty.text (Nat.zero_le _) printable
    rw [← terminal, List.take_nil, List.drop_nil, List.nil_append, List.append_nil,
      Nat.zero_add] at shown
    rw [ShowsLine, recalled.line_eq, recalled.num_eq]
    exact shown

/-- How many characters a key erases with `ERASE_TO_EOL`. -/
def erased (s : Cread) : Case → ℕ
  | .ctlU => s.eolNum
  | .ctlK => s.eolNum - s.num
  | .ctlP => if s.hist.histPrev.2 = none then 0 else s.eolNum
  | .ctlN => if s.hist.histNext.2 = none then 0 else s.eolNum
  | _ => 0

end Cread

/-! ## Printable lines -/

/-- The line and every line that can be recalled are printable. -/
structure Editor.Clean (e : Editor) : Prop where
  text : ∀ c ∈ e.text.chars, Printable c
  recalled : ∀ str ∈ e.recalled.entries, ∀ c ∈ str.1, Printable c

namespace Editor.Clean

variable {e : Editor} {c : BitVec 8}

/-- The line at a place is one that can be recalled, or empty. -/
theorem line_printable {p : Recalled} (entries : ∀ str ∈ p.entries, ∀ c ∈ str.1, Printable c) :
    ∀ c ∈ p.line.1, Printable c := by
  intro c mem
  unfold Recalled.line Past.shown at mem
  split at mem
  · exact absurd mem List.not_mem_nil
  · next i _ =>
      cases found : p.entries[i]? with
      | none =>
          rw [found] at mem
          exact absurd mem List.not_mem_nil
      | some str =>
          rw [found] at mem
          exact entries str (List.mem_of_getElem? found) c mem

theorem type (clean : e.Clean) (nonzero : c ≠ 0) (typed : Printable c) :
    (e.type c nonzero).Clean := by
  unfold Editor.type
  split_ifs with here room
  · refine ⟨fun c' mem => ?_, clean.recalled⟩
    rcases List.mem_or_eq_of_mem_set mem with mem | rfl
    · exact clean.text c' mem
    · exact typed
  · refine ⟨fun c' mem => ?_, clean.recalled⟩
    rcases (List.mem_insertIdx e.text.pos_le).mp mem with rfl | mem
    · exact typed
    · exact clean.text c' mem
  · exact ⟨clean.text, clean.recalled⟩

theorem recallLine (clean : e.Clean) {answer : Option Recalled}
    (entries : ∀ q, answer = some q → q.entries = e.recalled.entries) :
    (e.recallLine answer).Clean := by
  cases answer with
  | none => exact ⟨clean.text, clean.recalled⟩
  | some q =>
      have same : ∀ str ∈ q.entries, ∀ c ∈ str.1, Printable c := by
        rw [entries q rfl]
        exact clean.recalled
      exact ⟨line_printable same, same⟩

theorem press (clean : e.Clean) (nonzero : c ≠ 0) {key : Case}
    (typed : key = .other → Printable c) :
    (e.press c nonzero key).Clean := by
  have erased {str : List (BitVec 8)} (sublist : str.Sublist e.text.chars) :
      ∀ c ∈ str, Printable c := fun c mem => clean.text c (sublist.subset mem)
  cases key with
  | escape => exact ⟨clean.text, clean.recalled⟩
  | ctlA => exact ⟨clean.text, clean.recalled⟩
  | ctlC => exact ⟨fun _ mem => absurd mem List.not_mem_nil, clean.recalled⟩
  | ctlF =>
      refine ⟨?_, clean.recalled⟩
      show ∀ c ∈ e.text.right.chars, Printable c
      unfold Text.right
      split_ifs
      · exact clean.text
      · exact clean.text
  | ctlB => exact ⟨clean.text, clean.recalled⟩
  | ctlD => exact ⟨erased (List.eraseIdx_sublist _ _), clean.recalled⟩
  | ctlK => exact ⟨erased (List.take_sublist _ _), clean.recalled⟩
  | ctlE => exact ⟨clean.text, clean.recalled⟩
  | ctlO => exact ⟨clean.text, clean.recalled⟩
  | ctlU => exact ⟨fun _ mem => absurd mem List.not_mem_nil, clean.recalled⟩
  | del =>
      refine ⟨?_, clean.recalled⟩
      show ∀ c ∈ e.text.rubout.chars, Printable c
      unfold Text.rubout
      split_ifs
      · exact clean.text
      · exact erased (List.eraseIdx_sublist _ _)
  | ctlP => exact clean.recallLine fun _ => Past.older_entries
  | ctlN => exact clean.recallLine fun _ => Past.newer_entries
  | tab => exact clean
  | other => exact clean.type nonzero (typed rfl)

theorem enter (clean : e.Clean) : e.enter.Clean := by
  refine ⟨fun _ mem => absurd mem List.not_mem_nil, ?_⟩
  unfold Editor.enter
  split_ifs
  · intro str mem
    rcases List.mem_cons.mp (List.mem_of_mem_take mem) with rfl | mem
    · exact clean.text
    · exact clean.recalled str mem
  · exact clean.recalled

end Editor.Clean

/-! ## Sessions -/

/-- Between two keys of a session with printable lines. -/
def Settled (s : Cread) : Prop := ∃ e : Editor, Simulates s e ∧ e.pending = .nothing ∧ e.Clean

theorem settled_start (buf : ℕ → BitVec 8) : Settled (start buf Hist.histInit) :=
  ⟨Editor.first, simulates_start buf, rfl, fun _ mem => absurd mem List.not_mem_nil,
    fun _ mem => absurd mem List.not_mem_nil⟩

/-- A new prompt shows an empty line. -/
theorem showsLine_readline (s : Cread) : s.readline.ShowsLine := Terminal.shows_blank

/-- A history key, with what `hist_prev` or `hist_next` answers. -/
theorem showsLine_recall_iff (env : ShellEnv) {s : Cread} (shows_ : s.ShowsLine) (fits : s.Fits)
    {answer : Hist × Option (List (BitVec 8))} {p : Option Recalled}
    (answers : answer.2 = p.map fun q => q.line.1)
    (printable : ∀ q, p = some q → ∀ c ∈ q.line.1, Printable c) :
    (s.recallLine env answer).ShowsLine ↔ (if answer.2 = none then 0 else s.eolNum) < cbSize := by
  obtain ⟨hist, line⟩ := answer
  change line = _ at answers
  subst answers
  cases p with
  | none =>
      have beep := showsLine_beep (s := { s with esc := [], hist := hist }) shows_
      exact iff_of_true beep (Nat.succ_pos 127)
  | some q => exact showsLine_recallLine_iff env shows_ fits q.line.2 (printable q rfl)

/-- Each key of the switch leaves the row right, but for what it erases. -/
theorem showsLine_switch_iff (env : ShellEnv) {s : Cread} {e : Editor} (sim : Simulates s e)
    (clean : e.Clean) (shows_ : s.ShowsLine) {key : BitVec 8} (noEscape : caseOf key ≠ .escape)
    (noTab : caseOf key ≠ .tab) (typed : caseOf key = .other → Printable key) :
    (resume (Cread.switch env s key)).ShowsLine ↔ s.erased (caseOf key) < cbSize := by
  have fits := sim.fits
  have printable : ∀ c ∈ s.line, Printable c := by
    rw [sim.line_eq]
    exact clean.text
  have little : 0 < cbSize := by decide
  unfold Cread.switch
  cases label : caseOf key with
  | escape => exact absurd label noEscape
  | ctlA => exact iff_of_true (showsLine_home shows_) little
  | ctlC => exact iff_of_true (showsLine_readline _) little
  | ctlF =>
      refine iff_of_true ?_ little
      show (if _ then _ else _ : Cread).ShowsLine
      split_ifs with inside
      · exact showsLine_forward shows_ fits inside printable
      · exact shows_
  | ctlB =>
      refine iff_of_true ?_ little
      show (if _ then _ else _ : Cread).ShowsLine
      split_ifs with some_
      · exact showsLine_back shows_ some_
      · exact shows_
  | ctlD => exact iff_of_true (showsLine_deleteChar shows_ fits printable) little
  | ctlK => exact showsLine_eraseToEol_iff env shows_ fits
  | ctlE => exact iff_of_true (showsLine_refresh shows_ fits printable) little
  | ctlO => exact iff_of_true shows_ little
  | ctlU => exact showsLine_kill_iff env shows_ fits
  | del => exact iff_of_true (showsLine_backspace shows_ fits printable) little
  | ctlP =>
      apply showsLine_recall_iff env shows_ fits sim.hist.histPrev.2
      intro q older
      apply Editor.Clean.line_printable
      rw [Past.older_entries older]
      exact clean.recalled
  | ctlN =>
      apply showsLine_recall_iff env shows_ fits sim.hist.histNext.2
      intro q newer
      apply Editor.Clean.line_printable
      rw [Past.newer_entries newer]
      exact clean.recalled
  | tab => exact absurd label noTab
  | other => exact iff_of_true (showsLine_creadAddChar shows_ fits printable (typed label)) little

/-- No key but the first byte of an escape sequence begins one. -/
theorem pending_press {e : Editor} (idle : e.pending = .nothing) {c : BitVec 8} (nonzero : c ≠ 0)
    {key : Case} (noEscape : key ≠ .escape) : (e.press c nonzero key).pending = .nothing := by
  have recalls (answer : Option Recalled) : (e.recallLine answer).pending = .nothing := by
    cases answer <;> exact idle
  have types : (e.type c nonzero).pending = .nothing := by
    unfold Editor.type
    split_ifs <;> exact idle
  cases key with
  | escape => exact absurd rfl noEscape
  | ctlC => rfl
  | ctlP => exact recalls _
  | ctlN => exact recalls _
  | other => exact types
  | _ => exact idle

/-- The key erases less than a full line. -/
def ErasesLess (s : Cread) (k : EditKey) : Prop := s.erased (caseOf k.key) < cbSize

theorem Settled.noEsc {s : Cread} {e : Editor} (sim : Simulates s e) (idle : e.pending = .nothing) :
    s.esc = [] := by
  rw [sim.esc_eq, idle]
  rfl

theorem settled_press (env : ShellEnv) (s : Cread) (k : EditKey) (settled : Settled s) :
    Settled (k.press env s) := by
  obtain ⟨e, sim, idle, clean⟩ := settled
  rcases press_eq env (Settled.noEsc sim idle) k with
    ⟨c, newline, -, press⟩ | ⟨press, nonzero, noEscape, noTab, typed⟩
  · rw [press, sessionByte_newline env s newline]
    exact ⟨e.enter, sim.enter, rfl, clean.enter⟩
  · rw [press]
    exact ⟨_, sim.switch env idle nonzero noTab fun _ => rfl, pending_press idle nonzero noEscape,
      clean.press nonzero typed⟩

theorem showsLine_press_iff (env : ShellEnv) (s : Cread) (k : EditKey) (settled : Settled s)
    (shows_ : s.ShowsLine) : (k.press env s).ShowsLine ↔ ErasesLess s k := by
  obtain ⟨e, sim, idle, clean⟩ := settled
  rcases press_eq env (Settled.noEsc sim idle) k with
    ⟨c, newline, key, press⟩ | ⟨press, nonzero, noEscape, noTab, typed⟩
  · rw [press, sessionByte_newline env s newline, ErasesLess, key, caseOf_newline c newline]
    exact iff_of_true (showsLine_readline _) (Nat.succ_pos 127)
  · rw [press]
    exact showsLine_switch_iff env sim clean shows_ noEscape noTab typed

/-- In a session of keys the terminal shows the edited line after each key, exactly if no
key erases a full line of 128 characters. -/
theorem terminal_shows_line_iff (env : ShellEnv) (buf : ℕ → BitVec 8) (keys : List EditKey) :
    Throughout ShowsLine (fun s k => k.press env s) (start buf Hist.histInit) keys ↔
      Guarded ErasesLess (fun s k => k.press env s) (start buf Hist.histInit) keys := by
  rw [throughout_iff_guarded (settled_press env) (showsLine_press_iff env) (settled_start buf)]
  exact and_iff_right (showsLine_readline _)

/-- A full line of `a` erased with `^U`: the cursor is in front of the line. -/
theorem not_terminal_shows_line : ¬ ∀ (env : ShellEnv) (buf : ℕ → BitVec 8) (keys : List EditKey),
    Throughout ShowsLine (fun s k => k.press env s) (start buf Hist.histInit) keys := by
  intro always
  have last := (always .plain (fun _ => 0)
    (List.replicate 128 (.char 0x61 (by decide)) ++ [.control 0x15 (by decide)])).last
  have cursor := last.cursor_eq
  revert cursor
  decide +kernel

end CannonCar.Shell
