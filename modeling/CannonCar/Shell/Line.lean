import CannonCar.Shell.Cread

/-!
# What the handlers do to the line

The line of a call is `buf[0..eol_num)`.  Each handler of `cread_line` is described once,
by a `Becomes`: the line and the cursor it leaves in terms of the line and the cursor it
found, and the bytes it sends.  The statements are about lists: the moves of overlapping
regions, the 8-bit lengths and the loops of the macros stay behind here.

## What is load-bearing

`Becomes` has the line, the cursor, the bytes sent, and that nothing was written outside the
buffer; it is transitive, so a handler made of others is the composition of theirs.  `Fits` is
the hypothesis they share: the line has at most as many characters as the buffer, and the
cursor is in it.

The macros move the terminal's cursor by sending backspaces and blanks.  What is sent is given as
a list, and what a terminal makes of it is the subject of `Terminal`; the two are kept apart
because a line can be right while the terminal is not.
-/

namespace CannonCar.Shell

open MachineInt Trajectory

namespace Cread

/-- `buf[0..eol_num)`. -/
def line (s : Cread) : List (BitVec 8) := (List.range s.eolNum).map s.buf

@[simp] theorem length_line (s : Cread) : s.line.length = s.eolNum := by
  rw [line, List.length_map, List.length_range]

@[simp] theorem getElem_line (s : Cread) (i : ℕ) (h : i < s.line.length) : s.line[i] = s.buf i := by
  simp only [line, List.getElem_map, List.getElem_range]

/-- The cursor is in the line and the line in the buffer. -/
structure Fits (s : Cread) : Prop where
  num_le : s.num ≤ s.eolNum
  eol_le : s.eolNum ≤ cbSize

/-- Every index of the buffer written is one it has. -/
def WritesInside (s : Cread) : Prop := ∀ i ∈ s.writes, i ≤ cbSize

/-- From `s` to `s'` the line has become `line` with the cursor at `num`, and `sent` has
been sent, with so many beeps; nothing else changes. -/
structure Becomes (s s' : Cread) (line : List (BitVec 8)) (num : ℕ) (sent : List (BitVec 8))
    (beeps : ℕ) : Prop where
  line_eq : s'.line = line
  num_eq : s'.num = num
  out_eq : s'.out = s.out ++ sent
  beeps_eq : s'.beeps = s.beeps + beeps
  writes : s.WritesInside → s'.WritesInside
  insert_eq : s'.insert = s.insert
  esc_eq : s'.esc = s.esc
  hist_eq : s'.hist = s.hist

theorem Becomes.eol_eq {s s' : Cread} {line sent : List (BitVec 8)} {num beeps : ℕ}
    (h : Becomes s s' line num sent beeps) : s'.eolNum = line.length := by
  rw [← h.line_eq, length_line]

theorem Becomes.trans {s s' s'' : Cread} {line line' sent sent' : List (BitVec 8)}
    {num num' beeps beeps' : ℕ} (h : Becomes s s' line num sent beeps)
    (h' : Becomes s' s'' line' num' sent' beeps') :
    Becomes s s'' line' num' (sent ++ sent') (beeps + beeps') where
  line_eq := h'.line_eq
  num_eq := h'.num_eq
  out_eq := by rw [h'.out_eq, h.out_eq, List.append_assoc]
  beeps_eq := by rw [h'.beeps_eq, h.beeps_eq, Nat.add_assoc]
  writes inside := h'.writes (h.writes inside)
  insert_eq := h'.insert_eq.trans h.insert_eq
  esc_eq := h'.esc_eq.trans h.esc_eq
  hist_eq := h'.hist_eq.trans h.hist_eq

theorem Becomes.refl (s : Cread) : Becomes s s s.line s.num [] 0 where
  line_eq := rfl
  num_eq := rfl
  out_eq := (List.append_nil _).symm
  beeps_eq := rfl
  writes inside := inside
  insert_eq := rfl
  esc_eq := rfl
  hist_eq := rfl

/-- A byte is wide enough for every length there is. -/
theorem cbSize_lt : cbSize < 2 ^ 8 := by decide

/-! The primitives leave the cursor and the end of the line alone. -/

section Fields

variable (s : Cread) (chs : List (BitVec 8)) (i dst src n : ℕ) (v : BitVec 8)

@[simp] theorem puts_num : (s.puts chs).num = s.num := rfl
@[simp] theorem puts_eolNum : (s.puts chs).eolNum = s.eolNum := rfl
@[simp] theorem puts_buf : (s.puts chs).buf = s.buf := rfl
@[simp] theorem putnstr_num : (s.putnstr i n).num = s.num := rfl
@[simp] theorem putnstr_eolNum : (s.putnstr i n).eolNum = s.eolNum := rfl
@[simp] theorem putnstr_buf : (s.putnstr i n).buf = s.buf := rfl
@[simp] theorem store_num : (s.store i v).num = s.num := rfl
@[simp] theorem store_eolNum : (s.store i v).eolNum = s.eolNum := rfl
@[simp] theorem memmove_num : (s.memmove dst src n).num = s.num := rfl
@[simp] theorem memmove_eolNum : (s.memmove dst src n).eolNum = s.eolNum := rfl

end Fields

/-- `putnstr` sends a part of the buffer. -/
theorem putnstr_eq (s : Cread) (start : ℕ) {n : ℕ} (short : n < 2 ^ 8) :
    s.putnstr start n = s.puts ((List.range n).map fun i => s.buf (start + i)) := by
  rw [putnstr, toUnsigned_natCast short]

/-- The part of the line from an index on. -/
theorem map_buf_eq_drop (s : Cread) {start : ℕ} :
    ((List.range (s.eolNum - start)).map fun i => s.buf (start + i)) = s.line.drop start := by
  apply map_range_eq
  · rw [List.length_drop, length_line]
  · intro i h
    rw [List.getElem_drop, getElem_line]

/-! ## The macros -/

theorem becomes_beginningOfLine (s : Cread) :
    Becomes s s.beginningOfLine s.line 0 (List.replicate s.num 0x08) 0 where
  line_eq := rfl
  num_eq := rfl
  out_eq := rfl
  beeps_eq := rfl
  writes inside := inside
  insert_eq := rfl
  esc_eq := rfl
  hist_eq := rfl

/-- What `ERASE_TO_EOL` sends over `n` characters. -/
def erasure (env : ShellEnv) (n : ℕ) : List (BitVec 8) :=
  shellPrintf env (List.replicate n 0x20) ++ List.replicate n 0x08

theorem becomes_eraseToEol (env : ShellEnv) {s : Cread} (fits : s.Fits) :
    Becomes s (s.eraseToEol env) (s.line.take s.num) s.num (erasure env (s.eolNum - s.num)) 0 := by
  have taken : (List.range s.num).map s.buf = s.line.take s.num := by
    rw [line, ← List.map_take, List.take_range, Nat.min_eq_left fits.num_le]
  unfold eraseToEol
  split_ifs with before
  · exact ⟨taken, rfl, by simp only [puts, erasure, List.append_assoc], rfl, id, rfl, rfl, rfl⟩
  · have atEnd : s.num = s.eolNum := le_antisymm fits.num_le (not_lt.mp before)
    have whole : s.line.take s.num = s.line := by rw [atEnd, ← length_line, List.take_length]
    rw [whole, atEnd, Nat.sub_self]
    exact atEnd ▸ Becomes.refl s

theorem becomes_refreshToEol {s : Cread} (fits : s.Fits) :
    Becomes s s.refreshToEol s.line s.eolNum (s.line.drop s.num) 0 := by
  have eol := lt_of_le_of_lt fits.eol_le cbSize_lt
  have short : s.eolNum - s.num < 2 ^ 8 := lt_of_le_of_lt (Nat.sub_le _ _) eol
  have sent : s.putnstr s.num (toUnsigned 8 (s.eolNum - s.num)) = s.puts (s.line.drop s.num) := by
    rw [toUnsigned_sub fits.num_le eol, putnstr_eq s s.num short, map_buf_eq_drop]
  simp only [refreshToEol, sent]
  split_ifs with before
  · exact ⟨rfl, rfl, rfl, rfl, id, rfl, rfl, rfl⟩
  · have atEnd : s.num = s.eolNum := le_antisymm fits.num_le (not_lt.mp before)
    have nothing : s.line.drop s.num = [] := by rw [atEnd, ← length_line, List.drop_length]
    rw [nothing, ← atEnd]
    exact Becomes.refl s

theorem becomes_shellBeep (s : Cread) : Becomes s s.shellBeep s.line s.num [0x07] 1 :=
  ⟨rfl, rfl, rfl, rfl, id, rfl, rfl, rfl⟩

/-! ## Adding a character -/

/-- A step that writes a stretch of the buffer. -/
theorem writesInside_of {s s' : Cread} {d n : ℕ} (eq : s'.writes = List.range' d n ++ s.writes)
    (stretch : d + n ≤ cbSize + 1) (inside : s.WritesInside) : s'.WritesInside := by
  intro i mem
  rw [eq] at mem
  rcases List.mem_append.mp mem with written | before
  · have bound := (List.mem_range'_1.mp written).2
    omega
  · exact inside i before

/-- A full line turns a character away. -/
theorem creadAddChar_full {s : Cread} {insert : Bool} (ichar : BitVec 8)
    (grows : insert = true ∨ s.num = s.eolNum) (full : s.eolNum = cbSize) :
    s.creadAddChar ichar insert = s.shellBeep := by
  have past : s.eolNum > cbSize - 1 := by
    rw [full]
    decide
  simp only [creadAddChar, if_pos (And.intro grows past)]

theorem drop_insertIdx_self {α : Type*} (xs : List α) (a : α) {n : ℕ} (h : n ≤ xs.length) :
    (xs.insertIdx n a).drop n = a :: xs.drop n := by
  induction n generalizing xs with
  | zero => rfl
  | succ n ih =>
      cases xs with
      | nil => exact absurd h (Nat.not_succ_le_zero n)
      | cons x xs => exact ih xs (Nat.le_of_succ_le_succ h)

/-- The buffer after a character has been moved in. -/
theorem line_insert (s : Cread) (ichar : BitVec 8) (num_le : s.num ≤ s.eolNum) (buf : ℕ → BitVec 8)
    (before : ∀ i < s.num, buf i = s.buf i) (here : buf s.num = ichar)
    (after : ∀ i, s.num < i → i ≤ s.eolNum → buf i = s.buf (i - 1)) :
    (List.range (s.eolNum + 1)).map buf = s.line.insertIdx s.num ichar := by
  have length : (s.line.insertIdx s.num ichar).length = s.eolNum + 1 := by
    rw [List.length_insertIdx, length_line, if_pos num_le]
  apply map_range_eq length
  intro i h
  rw [length] at h
  rw [List.getElem_insertIdx]
  split_ifs with earlier same
  · rw [before i earlier, getElem_line]
  · rw [same, here]
  · rw [after i (by omega) (by omega), getElem_line]

/-- Moving nothing. -/
theorem memmove_zero (s : Cread) (dst src : ℕ) : s.memmove dst src 0 = s := by
  have same : (s.memmove dst src 0).buf = s.buf := by
    funext j
    exact if_neg (fun h => absurd (lt_of_lt_of_le h.2 h.1) (lt_irrefl _))
  exact congrArg (fun buf => { s with buf := buf }) same

/-- The rest of the line made room for, the character stored and sent with it. -/
theorem creadAddChar_insert_eq {s : Cread} (fits : s.Fits) (ichar : BitVec 8)
    (room : s.eolNum < cbSize) :
    s.creadAddChar ichar true =
      let s' := ({ s with eolNum := s.eolNum + 1 }.memmove (s.num + 1) s.num
        (s.eolNum - s.num)).store s.num ichar
      { (s'.puts ((List.range (s.eolNum + 1 - s.num)).map fun i => s'.buf (s.num + i))).puts
          (List.replicate (s.eolNum - s.num) 0x08) with num := s.num + 1 } := by
  have num_le := fits.num_le
  unfold cbSize at room
  have notFull : ¬ s.eolNum > cbSize - 1 := not_lt.mpr (Nat.le_pred_of_lt room)
  have eol : toUnsigned 8 ((s.eolNum : ℤ) + 1) = s.eolNum + 1 := toUnsigned_add_one (by omega)
  have wlen : toUnsigned 32 (((s.eolNum + 1 : ℕ) : ℤ) - s.num) = s.eolNum + 1 - s.num :=
    toUnsigned_sub (by omega) (by omega)
  have back : toUnsigned 32 (((s.eolNum + 1 - s.num : ℕ) : ℤ) - 1) = s.eolNum - s.num := by
    rw [toUnsigned_sub_one (by omega) (by omega)]
    omega
  have next : toUnsigned 8 ((s.num : ℤ) + 1) = s.num + 1 := toUnsigned_add_one (by omega)
  have moves : (if s.eolNum + 1 - s.num > 1 then
      { s with eolNum := s.eolNum + 1 }.memmove (s.num + 1) s.num (s.eolNum + 1 - s.num - 1)
      else { s with eolNum := s.eolNum + 1 }) =
      { s with eolNum := s.eolNum + 1 }.memmove (s.num + 1) s.num (s.eolNum - s.num) := by
    split_ifs with some_
    · congr 1
      omega
    · have nothing : s.eolNum - s.num = 0 := by omega
      rw [nothing, memmove_zero]
  have short : s.eolNum + 1 - s.num < 2 ^ 8 := by omega
  simp only [creadAddChar, true_or, true_and, if_true, notFull, if_false, eol, wlen, back, moves,
    memmove_num, store_num, putnstr_eq _ _ short, puts_num, next]
  rfl

theorem becomes_creadAddChar_insert {s : Cread} (fits : s.Fits) (ichar : BitVec 8)
    (room : s.eolNum < cbSize) :
    Becomes s (s.creadAddChar ichar true) (s.line.insertIdx s.num ichar) (s.num + 1)
      (ichar :: s.line.drop s.num ++ List.replicate (s.eolNum - s.num) 0x08) 0 := by
  have num_le := fits.num_le
  have line : (List.range (s.eolNum + 1)).map
      (({ s with eolNum := s.eolNum + 1 }.memmove (s.num + 1) s.num (s.eolNum - s.num)).store
        s.num ichar).buf = s.line.insertIdx s.num ichar := by
    apply line_insert s ichar num_le
    · intro i before
      show Function.update _ _ _ i = _
      rw [Function.update_of_ne (ne_of_lt before)]
      exact if_neg (by omega)
    · exact Function.update_self _ _ _
    · intro i after inside
      show Function.update _ _ _ i = _
      rw [Function.update_of_ne (ne_of_gt after)]
      have moved : s.num + 1 ≤ i ∧ i < s.num + 1 + (s.eolNum - s.num) := by omega
      have place : s.num + (i - (s.num + 1)) = i - 1 := by omega
      exact (if_pos moved).trans (congrArg s.buf place)
  rw [creadAddChar_insert_eq fits ichar room]
  have sent : ((List.range (s.eolNum + 1 - s.num)).map fun i =>
      (({ s with eolNum := s.eolNum + 1 }.memmove (s.num + 1) s.num (s.eolNum - s.num)).store
        s.num ichar).buf (s.num + i)) = ichar :: s.line.drop s.num := by
    rw [← drop_insertIdx_self s.line ichar (by rw [length_line]; exact num_le), ← line]
    exact map_buf_eq_drop (Cread.store _ s.num ichar)
  refine ⟨line, rfl, ?_, rfl, ?_, rfl, rfl, rfl⟩
  · show s.out ++ _ ++ _ = _
    rw [sent, List.append_assoc]
  · exact writesInside_of (d := s.num) (n := s.eolNum - s.num + 1) rfl (by omega)

/-- Overwriting, at the end of the line or before it. -/
theorem creadAddChar_overwrite_eq {s : Cread} (fits : s.Fits) (ichar : BitVec 8)
    (room : s.num < cbSize) :
    s.creadAddChar ichar false =
      { ({ s with eolNum := max s.eolNum (s.num + 1) }.store s.num ichar).puts [ichar] with
        num := s.num + 1 } := by
  have num_le := fits.num_le
  unfold cbSize at room
  have next : toUnsigned 8 ((s.num : ℤ) + 1) = s.num + 1 := toUnsigned_add_one (by omega)
  have one (s' : Cread) : s'.putnstr s.num 1 = s'.puts [s'.buf s.num] :=
    putnstr_eq s' s.num (by decide)
  have stored (s' : Cread) : (s'.store s.num ichar).buf s.num = ichar := Function.update_self _ _ _
  have notFull : ¬ (s.num = s.eolNum ∧ s.eolNum > cbSize - 1) := by
    rintro ⟨atEnd, full⟩
    unfold cbSize at full
    omega
  have grown : (if s.num = s.eolNum then
      { s with eolNum := toUnsigned 8 ((s.eolNum : ℤ) + 1) } else s) =
      { s with eolNum := max s.eolNum (s.num + 1) } := by
    by_cases atEnd : s.num = s.eolNum
    · rw [if_pos atEnd, ← atEnd, next, max_eq_right (Nat.le_succ _)]
    · rw [if_neg atEnd, max_eq_left (lt_of_le_of_ne num_le atEnd)]
  simp only [creadAddChar, Bool.false_eq_true, false_or, notFull, if_false, grown, one, stored,
    store_num, puts_num, next]

/-- The end of the line, without room made there, takes a character as an insertion
there does. -/
theorem becomes_creadAddChar_append {s : Cread} (fits : s.Fits) (ichar : BitVec 8)
    (room : s.eolNum < cbSize) (atEnd : s.num = s.eolNum) :
    Becomes s (s.creadAddChar ichar false) (s.line ++ [ichar]) (s.num + 1) [ichar] 0 := by
  rw [creadAddChar_overwrite_eq fits ichar (atEnd ▸ room)]
  refine ⟨?_, rfl, rfl, rfl, ?_, rfl, rfl, rfl⟩
  · show (List.range (max s.eolNum (s.num + 1))).map (Function.update s.buf s.num ichar) = _
    rw [atEnd, max_eq_right (Nat.le_succ _), List.range_succ, List.map_append, List.map_singleton,
      Function.update_self]
    congr 1
    apply List.map_congr_left
    intro i mem
    exact Function.update_of_ne (ne_of_lt (List.mem_range.mp mem)) _ _
  · exact writesInside_of (d := s.num) (n := 1) rfl (by omega)

theorem becomes_creadAddChar_overwrite {s : Cread} (fits : s.Fits) (ichar : BitVec 8)
    (inside : s.num < s.eolNum) :
    Becomes s (s.creadAddChar ichar false) (s.line.set s.num ichar) (s.num + 1) [ichar] 0 := by
  have room := lt_of_lt_of_le inside fits.eol_le
  rw [creadAddChar_overwrite_eq fits ichar room, max_eq_left inside]
  refine ⟨?_, rfl, rfl, rfl, ?_, rfl, rfl, rfl⟩
  · show (List.range s.eolNum).map (Function.update s.buf s.num ichar) = _
    apply map_range_eq
    · rw [List.length_set, length_line]
    · intro i h
      rw [List.getElem_set]
      split_ifs with here
      · rw [here, Function.update_self]
      · rw [Function.update_of_ne (Ne.symm here), getElem_line]
  · exact writesInside_of (d := s.num) (n := 1) rfl (by omega)

/-! ## Removing a character -/

/-- The buffer after a character has been moved out. -/
theorem line_erase (s : Cread) {k : ℕ} (inside : k < s.eolNum) (buf : ℕ → BitVec 8)
    (before : ∀ i < k, buf i = s.buf i)
    (after : ∀ i, k ≤ i → i + 1 < s.eolNum → buf i = s.buf (i + 1)) :
    (List.range (s.eolNum - 1)).map buf = s.line.eraseIdx k := by
  have length : (s.line.eraseIdx k).length = s.eolNum - 1 := by
    rw [List.length_eraseIdx_of_lt (by rwa [length_line]), length_line]
  apply map_range_eq length
  intro i h
  rw [length] at h
  rw [List.getElem_eraseIdx]
  split_ifs with earlier
  · rw [before i earlier, getElem_line]
  · rw [after i (not_lt.mp earlier) (by omega), getElem_line]

theorem drop_eraseIdx_self {α : Type*} (xs : List α) (k : ℕ) :
    (xs.eraseIdx k).drop k = xs.drop (k + 1) := by
  induction k generalizing xs with
  | zero => cases xs <;> rfl
  | succ k ih =>
      cases xs with
      | nil => rfl
      | cons x xs => exact ih xs

/-- Moving the rest of the line down over the character at `k`. -/
theorem memmove_down (s : Cread) {k n : ℕ} (inside : k < s.eolNum) (enough : s.eolNum ≤ k + 1 + n) :
    (List.range (s.eolNum - 1)).map (s.memmove k (k + 1) n).buf = s.line.eraseIdx k := by
  apply line_erase s inside
  · intro i before
    exact if_neg fun h => absurd h.1 (not_le.mpr before)
  · intro i after earlier
    have moved : k ≤ i ∧ i < k + n := by omega
    have place : k + 1 + (i - k) = i + 1 := by omega
    exact (if_pos moved).trans (congrArg s.buf place)

/-- The rest of the line, as sent after the move. -/
theorem sent_memmove_down (s : Cread) {k n : ℕ} (inside : k < s.eolNum)
    (enough : s.eolNum ≤ k + 1 + n) :
    ((List.range (s.eolNum - 1 - k)).map fun i => (s.memmove k (k + 1) n).buf (k + i)) =
      s.line.drop (k + 1) := by
  rw [← drop_eraseIdx_self, ← memmove_down s inside enough]
  exact map_buf_eq_drop { s.memmove k (k + 1) n with eolNum := s.eolNum - 1 }

theorem becomes_deleteChar {s : Cread} (fits : s.Fits) (inside : s.num < s.eolNum) :
    Becomes s s.deleteChar (s.line.eraseIdx s.num) s.num
      (s.line.drop (s.num + 1) ++ [0x20] ++ List.replicate (s.eolNum - s.num) 0x08) 0 := by
  have eol := lt_of_le_of_lt fits.eol_le cbSize_lt
  obtain ⟨w, length⟩ : ∃ w, s.eolNum = s.num + 1 + w := Nat.exists_eq_add_of_le inside
  have wlen : toUnsigned 8 ((s.eolNum : ℤ) - s.num - 1) = w := by
    rw [length]
    push_cast
    rw [show (s.num : ℤ) + 1 + w - s.num - 1 = w by ring]
    exact toUnsigned_natCast (by omega)
  have less : toUnsigned 8 ((s.eolNum : ℤ) - 1) = s.eolNum - 1 :=
    toUnsigned_sub_one (by omega) eol
  have sent : ((List.range w).map fun i => (s.memmove s.num (s.num + 1) w).buf (s.num + i)) =
      s.line.drop (s.num + 1) := by
    rw [← sent_memmove_down s inside (n := w) (by omega)]
    congr 2
    omega
  have moves : (if w ≠ 0 then (s.memmove s.num (s.num + 1) w).putnstr s.num w else s) =
      (s.memmove s.num (s.num + 1) w).puts (s.line.drop (s.num + 1)) := by
    by_cases none_ : w = 0
    · have nothing : s.line.drop (s.num + 1) = [] := by
        rw [← sent, none_]
        rfl
      rw [if_neg (not_not.mpr none_), nothing, none_, memmove_zero, puts, List.append_nil]
    · rw [if_pos none_, putnstr_eq _ _ (by omega), sent]
  have erased := memmove_down s inside (n := w) (by omega)
  have backs : s.eolNum - s.num = w + 1 := by omega
  simp only [deleteChar, if_pos inside, wlen, moves, puts_eolNum, memmove_eolNum, less, backs]
  refine ⟨erased, rfl, ?_, rfl, ?_, rfl, rfl, rfl⟩
  · show s.out ++ _ ++ _ ++ _ = _
    rw [List.append_assoc, List.append_assoc, List.append_assoc]
  · have fit := fits.eol_le
    exact writesInside_of (d := s.num) (n := w) rfl (by omega)

theorem becomes_backspace {s : Cread} (fits : s.Fits) (some_ : s.num ≠ 0) :
    Becomes s s.backspace (s.line.eraseIdx (s.num - 1)) (s.num - 1)
      (0x08 :: s.line.drop s.num ++ [0x20] ++ List.replicate (s.eolNum - s.num + 1) 0x08) 0 := by
  have eol := lt_of_le_of_lt fits.eol_le cbSize_lt
  have num_le := fits.num_le
  obtain ⟨k, num⟩ := Nat.exists_eq_succ_of_ne_zero some_
  rw [Nat.succ_eq_add_one] at num
  obtain ⟨w, length⟩ : ∃ w, s.eolNum = s.num + w := Nat.exists_eq_add_of_le num_le
  have wlen : toUnsigned 8 ((s.eolNum : ℤ) - s.num) = w := by
    rw [toUnsigned_sub num_le eol]
    omega
  have less : toUnsigned 8 ((s.eolNum : ℤ) - 1) = s.eolNum - 1 :=
    toUnsigned_sub_one (by omega) eol
  have inside : k < s.eolNum := by omega
  have back : s.num - 1 = k := by omega
  have rest : s.eolNum - s.num = w := by omega
  have sent : ((List.range w).map fun i => (s.memmove k (k + 1) w).buf (k + i)) =
      s.line.drop (k + 1) := by
    rw [← sent_memmove_down s inside (n := w) (by omega)]
    congr 2
    omega
  have erased := memmove_down s inside (n := w) (by omega)
  have sends (s' : Cread) : s'.putnstr k w = s'.puts ((List.range w).map fun i => s'.buf (k + i)) :=
    putnstr_eq s' k (by omega)
  simp only [backspace, if_pos some_, wlen, back, puts_eolNum, memmove_eolNum, less, rest, sends,
    puts_num, memmove_num]
  refine ⟨erased, rfl, ?_, rfl, ?_, rfl, rfl, rfl⟩
  · rw [num, ← sent]
    show s.out ++ [0x08] ++ _ ++ [0x20] ++ List.replicate (w + 1) 0x08 = _
    simp only [List.append_assoc, List.cons_append, List.nil_append]
    rfl
  · have fit := fits.eol_le
    exact writesInside_of (d := k) (n := w) rfl (by omega)

/-! ## Moving the cursor -/

theorem becomes_forward {s : Cread} (fits : s.Fits) (inside : s.num < s.eolNum) :
    Becomes s { s.puts [s.buf s.num] with num := toUnsigned 8 (s.num + 1) } s.line (s.num + 1)
      [s.buf s.num] 0 := by
  have eol := lt_of_le_of_lt fits.eol_le cbSize_lt
  have next : toUnsigned 8 ((s.num : ℤ) + 1) = s.num + 1 := toUnsigned_add_one (by omega)
  exact ⟨rfl, next, rfl, rfl, id, rfl, rfl, rfl⟩

theorem becomes_back (s : Cread) :
    Becomes s { s.puts [0x08] with num := s.num - 1 } s.line (s.num - 1) [0x08] 0 :=
  ⟨rfl, rfl, rfl, rfl, id, rfl, rfl, rfl⟩

/-! ## Strings -/

/-- A buffer that starts with a string and its terminator. -/
theorem exists_behind {buf : ℕ → BitVec 8} {str : List (BitVec 8)} (isString : IsString str)
    (chars : (List.range str.length).map buf = str) (stop : buf str.length = 0) :
    ∃ rest, (List.range (cbSize + 1)).map buf = str ++ 0 :: rest := by
  obtain ⟨n, split⟩ := Nat.exists_eq_add_of_le (Nat.succ_le_succ isString.length_le)
  refine ⟨(List.range n).map fun i => buf (str.length + (1 + i)), ?_⟩
  have first : str.length + 1 + n = str.length + (n + 1) := by omega
  rw [← Nat.succ_eq_add_one, split, Nat.succ_eq_add_one, first, List.range_add, List.map_append,
    chars, List.range_succ_eq_map, List.map_cons, List.map_cons, Nat.add_zero, stop, List.map_map,
    List.map_map]
  congr 2
  apply List.map_congr_left
  intro i _
  simp only [Function.comp_apply, Nat.succ_eq_add_one, Nat.add_comm i 1]

/-- What `strlen` and `strcpy` find in a buffer that starts with a string. -/
theorem cstr_eq {s : Cread} {str : List (BitVec 8)} (isString : IsString str)
    (chars : (List.range str.length).map s.buf = str) (stop : s.buf str.length = 0) :
    s.cstr = str := by
  obtain ⟨rest, bytes⟩ := exists_behind isString chars stop
  rw [cstr, bytes, List.takeWhile_append_of_pos]
  · simp
  · intro c mem
    simpa using isString.nonzero c mem

theorem map_buf_strcpy (s : Cread) (str : List (BitVec 8)) :
    (List.range str.length).map (s.strcpy str).buf = str := by
  apply map_range_eq rfl
  intro i h
  exact (if_pos h).trans (List.getD_eq_getElem _ _ h)

/-- `strcpy` puts a string where `strlen` finds it. -/
theorem cstr_strcpy (s : Cread) {str : List (BitVec 8)} (isString : IsString str) :
    (s.strcpy str).cstr = str := by
  apply cstr_eq isString (map_buf_strcpy s str)
  exact (if_neg (lt_irrefl _)).trans (if_pos rfl)

/-- The terminator `cread_line` stores leaves the line as it is. -/
theorem map_buf_terminated (s : Cread) :
    (List.range s.eolNum).map (s.store s.eolNum 0).buf = s.line := by
  apply List.map_congr_left
  intro i mem
  exact Function.update_of_ne (ne_of_lt (List.mem_range.mp mem)) _ _

/-! ## Whole lines -/

/-- What emptying the line sends. -/
def killSent (env : ShellEnv) (s : Cread) : List (BitVec 8) :=
  List.replicate s.num 0x08 ++ erasure env s.eolNum

theorem becomes_kill (env : ShellEnv) {s : Cread} (fits : s.Fits) :
    Becomes s (s.beginningOfLine.eraseToEol env) [] 0 (s.killSent env) 0 := by
  have home : s.beginningOfLine.Fits := ⟨Nat.zero_le _, fits.eol_le⟩
  exact (becomes_beginningOfLine s).trans (becomes_eraseToEol env home)

/-- A string copied over a line and shown from the start. -/
theorem becomes_copy {s : Cread} (home : s.num = 0) {hline : List (BitVec 8)}
    (isString : IsString hline) :
    Becomes s { s.strcpy hline with
        eolNum := toUnsigned 8 (s.strcpy hline).cstr.length }.refreshToEol
      hline hline.length hline 0 := by
  have fit := isString.length_le
  have length : toUnsigned 8 (s.strcpy hline).cstr.length = hline.length := by
    rw [cstr_strcpy s isString]
    exact toUnsigned_natCast (lt_of_le_of_lt fit cbSize_lt)
  rw [length]
  have copied : Becomes s { s.strcpy hline with eolNum := hline.length } hline 0 [] 0 := by
    refine ⟨map_buf_strcpy s hline, home, (List.append_nil _).symm, rfl, ?_, rfl, rfl, rfl⟩
    apply writesInside_of (d := 0) (n := hline.length + 1)
    · exact congrArg (· ++ s.writes) List.range_eq_range'
    · omega
  have copiedFits : ({ s.strcpy hline with eolNum := hline.length } : Cread).Fits :=
    ⟨home.trans_le (Nat.zero_le _), fit⟩
  have shown := copied.trans (becomes_refreshToEol copiedFits)
  rwa [copied.line_eq, copied.num_eq, List.drop_zero, List.nil_append] at shown

/-- A line of the history that is found. -/
theorem becomes_recallLine (env : ShellEnv) {s : Cread} (fits : s.Fits) (hist : Hist)
    {hline : List (BitVec 8)} (isString : IsString hline) :
    Becomes { s with esc := [], hist := hist } (s.recallLine env (hist, some hline)) hline
      hline.length (s.killSent env ++ hline) 0 := by
  have kept : ({ s with esc := [], hist := hist } : Cread).Fits := ⟨fits.num_le, fits.eol_le⟩
  have killed := becomes_kill env kept
  exact killed.trans (becomes_copy killed.num_eq isString)

/-- The history a line that has been entered leaves. -/
theorem finish_hist (s : Cread) (chs : List (BitVec 8)) :
    (s.puts chs).finish.hist =
      let s' := s.store s.eolNum 0
      let hist := if s'.buf 0 ≠ 0 ∧ s'.buf 0 ≠ 0x21 then s.hist.creadAddToHist s'.cstr else s.hist
      { hist with histCur := hist.histAddIdx } := rfl

end Cread

end CannonCar.Shell
