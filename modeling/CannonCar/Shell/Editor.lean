import CannonCar.Shell.History
import CannonCar.Shell.Line

/-!
# The line editor as an editor

`Editor` is what the line editor is for: a text with a position in it, the two modes of
typing, an escape sequence that has begun, and the lines that can be recalled.  Keys are
the bytes of `caseOf` and `escKey`; what they do is said in terms of lists.

`Simulates` relates a call of `cread_line` to it, byte by byte.

## What is load-bearing

**The abstract editor has no buffer.**  Its text has a position inside by construction (`Text`), and
its lines are strings that fit by construction (`ShellString`), so that no operation on it has a
side condition.  What the code does at the ends of its buffer, beeping above all, appears in
it as a count of beeps.

**`Simulates` is kept byte by byte**, in the middle of escape sequences too (`Pending`), for every
byte but TAB; the store log says that all writes were inside the buffer.  So an editor of
lists is what `cread_line` is, for every sequence of keys.

The history is part of the abstract editor and is what `History` says the ring holds.
-/

namespace CannonCar.Shell

open Cread MachineInt RecallRing Trajectory

/-! ## Texts -/

/-- A text that fits the line, with a position in it. -/
structure Text where
  chars : List (BitVec 8)
  pos : ℕ
  pos_le : pos ≤ chars.length
  isString : IsString chars

namespace Text

/-- A string with the position behind it. -/
def behind (str : ShellString) : Text := ⟨str.1, str.1.length, le_rfl, str.2⟩

def empty : Text := behind ShellString.empty

def home (t : Text) : Text := { t with pos := 0, pos_le := Nat.zero_le _ }

def atEnd (t : Text) : Text := { t with pos := t.chars.length, pos_le := le_rfl }

def left (t : Text) : Text := { t with pos := t.pos - 1, pos_le := (Nat.sub_le _ _).trans t.pos_le }

def right (t : Text) : Text :=
  if inside : t.pos < t.chars.length then { t with pos := t.pos + 1, pos_le := inside } else t

/-- Leaving characters out keeps a string one. -/
theorem isString_of_sublist {str str' : List (BitVec 8)} (sublist : str'.Sublist str)
    (isString : IsString str) : IsString str' where
  length_le := sublist.length_le.trans isString.length_le
  nonzero c mem := isString.nonzero c (sublist.subset mem)

/-- A character put in at the position. -/
def insert (t : Text) (c : BitVec 8) (nonzero : c ≠ 0) (room : t.chars.length < cbSize) : Text where
  chars := t.chars.insertIdx t.pos c
  pos := t.pos + 1
  pos_le := by
    rw [List.length_insertIdx_of_le_length t.pos_le]
    exact Nat.succ_le_succ t.pos_le
  isString :=
    { length_le := by rwa [List.length_insertIdx_of_le_length t.pos_le]
      nonzero := fun c' mem => by
        rcases (List.mem_insertIdx t.pos_le).mp mem with rfl | mem
        · exact nonzero
        · exact t.isString.nonzero c' mem }

/-- The character at the position replaced. -/
def overwrite (t : Text) (c : BitVec 8) (nonzero : c ≠ 0) (inside : t.pos < t.chars.length) :
    Text where
  chars := t.chars.set t.pos c
  pos := t.pos + 1
  pos_le := by rwa [List.length_set]
  isString :=
    { length_le := by
        rw [List.length_set]
        exact t.isString.length_le
      nonzero := fun c' mem => by
        rcases List.mem_or_eq_of_mem_set mem with mem | rfl
        · exact t.isString.nonzero c' mem
        · exact nonzero }

/-- The character at the position taken out. -/
def delete (t : Text) : Text where
  chars := t.chars.eraseIdx t.pos
  pos := t.pos
  pos_le := by
    rw [List.length_eraseIdx]
    have le := t.pos_le
    split_ifs with inside
    · exact Nat.le_pred_of_lt inside
    · exact le
  isString := isString_of_sublist (List.eraseIdx_sublist _ _) t.isString

/-- The character before the position taken out. -/
def rubout (t : Text) : Text := if t.pos = 0 then t else t.left.delete

/-- Everything from the position on taken out. -/
def cut (t : Text) : Text where
  chars := t.chars.take t.pos
  pos := t.pos
  pos_le := by rw [List.length_take, Nat.min_eq_left t.pos_le]
  isString := isString_of_sublist (List.take_sublist _ _) t.isString

end Text

/-! ## The editor -/

/-- How much of an escape sequence has come. -/
inductive Pending
  | nothing
  | esc
  | bracket
  deriving DecidableEq

/-- The bytes of an escape sequence that has begun. -/
def Pending.bytes : Pending → List (BitVec 8)
  | .nothing => []
  | .esc => [0x1B]
  | .bracket => [0x1B, 0x5B]

/-- The editor. -/
structure Editor where
  text : Text
  insert : Bool
  pending : Pending
  recalled : Recalled
  beeps : ℕ

/-- The lines that are kept: `'!'` is what the history would be called with. -/
def Kept (chars : List (BitVec 8)) : Prop := chars ≠ [] ∧ chars.head? ≠ some 0x21

instance (chars : List (BitVec 8)) : Decidable (Kept chars) :=
  inferInstanceAs (Decidable (_ ∧ _))

namespace Editor

/-- The first prompt. -/
def first : Editor := ⟨Text.empty, true, .nothing, Past.nothing, 0⟩

def beep (e : Editor) : Editor := { e with beeps := e.beeps + 1 }

/-- The next prompt. -/
def prompt (e : Editor) : Editor :=
  { e with text := Text.empty, insert := true, pending := .nothing }

/-- A character, which a full line has no room for. -/
def type (e : Editor) (c : BitVec 8) (nonzero : c ≠ 0) : Editor :=
  if here : e.insert = false ∧ e.text.pos < e.text.chars.length then
    { e with text := e.text.overwrite c nonzero here.2 }
  else if room : e.text.chars.length < cbSize then
    { e with text := e.text.insert c nonzero room }
  else e.beep

/-- A line recalled, if there is one. -/
def recallLine (e : Editor) : Option Recalled → Editor
  | none => e.beep
  | some p => { e with text := Text.behind p.line, recalled := p }

/-- A key; `c` is the character it types, if it types one. -/
def press (e : Editor) (c : BitVec 8) (nonzero : c ≠ 0) : Case → Editor
  | .escape => { e with pending := .esc }
  | .ctlA => { e with text := e.text.home }
  | .ctlC => e.prompt
  | .ctlF => { e with text := e.text.right }
  | .ctlB => { e with text := e.text.left }
  | .ctlD => { e with text := e.text.delete }
  | .ctlK => { e with text := e.text.cut }
  | .ctlE => { e with text := e.text.atEnd }
  | .ctlO => { e with insert := !e.insert }
  | .ctlU => { e with text := Text.empty }
  | .del => { e with text := e.text.rubout }
  | .ctlP => e.recallLine e.recalled.older
  | .ctlN => e.recallLine e.recalled.newer
  | .tab => e
  | .other => e.type c nonzero

/-- Return: the line goes to the lines that can be recalled. -/
def enter (e : Editor) : Editor :=
  { e.prompt with
    recalled :=
      if Kept e.text.chars then Past.push e.recalled ⟨e.text.chars, e.text.isString⟩
      else Past.rewind e.recalled }

/-- A byte received.  What begins like an escape sequence and is none is typed, up to a
byte behind a lone ESC, which is dropped. -/
def byte (e : Editor) (c : BitVec 8) : Editor :=
  if nonzero : c ≠ 0 then
    if c = 0x0A ∨ c = 0x0D then e.enter
    else
      match e.pending with
      | .nothing => e.press c nonzero (caseOf c)
      | .esc =>
          if c = 0x5B then { e with pending := .bracket }
          else { e.type 0x1B (by decide) with pending := .nothing }
      | .bracket =>
          match escKey c with
          | some key => { e with pending := .nothing }.press c nonzero (caseOf key)
          | none =>
              { ((e.type 0x1B (by decide)).type 0x5B (by decide)).type c nonzero with
                pending := .nothing }
  else e

end Editor

/-! ## Bytes and keys -/

theorem caseOf_escape : ∀ key : BitVec 8, caseOf key = .escape → key = 0x1B := by decide +kernel

theorem caseOf_tab : ∀ key : BitVec 8, caseOf key = .tab → key = 0x09 := by decide +kernel

/-- An escape sequence stands for a key, never for a character. -/
theorem caseOf_escKey {c key : BitVec 8} (known : escKey c = some key) :
    key ≠ 0 ∧ caseOf key ≠ .escape ∧ caseOf key ≠ .tab ∧ caseOf key ≠ .other := by
  unfold escKey at known
  split_ifs at known <;> cases known <;> decide

/-! ## The simulation -/

/-- A call of `cread_line` has the text, the modes and the history of the editor. -/
structure Simulates (s : Cread) (e : Editor) : Prop where
  line_eq : s.line = e.text.chars
  num_eq : s.num = e.text.pos
  insert_eq : s.insert = e.insert
  esc_eq : s.esc = e.pending.bytes
  hist : s.hist.Represents e.recalled
  beeps_eq : s.beeps = e.beeps
  writes : s.WritesInside

namespace Simulates

variable {s s' : Cread} {e : Editor}

theorem eol_eq (sim : Simulates s e) : s.eolNum = e.text.chars.length := by
  rw [← sim.line_eq, length_line]

theorem fits (sim : Simulates s e) : s.Fits where
  num_le := by
    rw [sim.num_eq, sim.eol_eq]
    exact e.text.pos_le
  eol_le := by
    rw [sim.eol_eq]
    exact e.text.isString.length_le

/-- A step on the line alone. -/
theorem becomes (sim : Simulates s e) {line sent : List (BitVec 8)} {num beeps : ℕ}
    (b : Becomes s s' line num sent beeps) {t : Text} (line_eq : line = t.chars)
    (num_eq : num = t.pos) : Simulates s' { e with text := t, beeps := e.beeps + beeps } where
  line_eq := b.line_eq.trans line_eq
  num_eq := b.num_eq.trans num_eq
  insert_eq := b.insert_eq.trans sim.insert_eq
  esc_eq := b.esc_eq.trans sim.esc_eq
  hist := b.hist_eq ▸ sim.hist
  beeps_eq := by rw [b.beeps_eq, sim.beeps_eq]
  writes := b.writes sim.writes

/-- An escape sequence taken up or dropped. -/
theorem pending (sim : Simulates s e) (pending : Pending) :
    Simulates { s with esc := pending.bytes } { e with pending := pending } :=
  { sim with esc_eq := rfl }

theorem beep (sim : Simulates s e) : Simulates s.shellBeep e.beep :=
  sim.becomes (becomes_shellBeep s) sim.line_eq sim.num_eq

/-! ### The keys -/

theorem creadAddChar (sim : Simulates s e) (c : BitVec 8) (nonzero : c ≠ 0) :
    Simulates (s.creadAddChar c s.insert) (e.type c nonzero) := by
  have line := sim.line_eq
  have num := sim.num_eq
  have eol := sim.eol_eq
  have pos_le := e.text.pos_le
  unfold Editor.type
  split_ifs with here room
  · have inside : s.num < s.eolNum := by
      rw [eol, num]
      exact here.2
    rw [sim.insert_eq.trans here.1]
    apply sim.becomes (becomes_creadAddChar_overwrite sim.fits c inside)
    · rw [line, num]
      rfl
    · rw [num]
      rfl
  · have room' : s.eolNum < cbSize := by rwa [eol]
    by_cases inserting : e.insert = true
    · rw [sim.insert_eq.trans inserting]
      apply sim.becomes (becomes_creadAddChar_insert sim.fits c room')
      · rw [line, num]
        rfl
      · rw [num]
        rfl
    · rw [Bool.not_eq_true] at inserting
      have last : e.text.pos = e.text.chars.length :=
        le_antisymm pos_le (not_lt.mp fun inside => here ⟨inserting, inside⟩)
      have atEnd : s.num = s.eolNum := by rw [num, eol, last]
      rw [sim.insert_eq.trans inserting]
      apply sim.becomes (becomes_creadAddChar_append sim.fits c room' atEnd)
      · rw [line, ← List.insertIdx_length_self, ← last]
        rfl
      · rw [num]
        rfl
  · have full : s.eolNum = cbSize := by
      rw [eol]
      exact le_antisymm e.text.isString.length_le (not_lt.mp room)
    have grows : s.insert = true ∨ s.num = s.eolNum := by
      rw [sim.insert_eq, num, eol]
      by_contra neither
      rw [not_or, Bool.not_eq_true] at neither
      exact here ⟨neither.1, lt_of_le_of_ne pos_le neither.2⟩
    rw [creadAddChar_full c grows full]
    exact sim.beep

theorem home (sim : Simulates s e) : Simulates s.beginningOfLine { e with text := e.text.home } :=
  sim.becomes (becomes_beginningOfLine s) sim.line_eq rfl

theorem right (sim : Simulates s e) :
    Simulates (if s.num < s.eolNum then
        { s.puts [s.buf s.num] with num := toUnsigned 8 (s.num + 1) } else s)
      { e with text := e.text.right } := by
  have same : s.num < s.eolNum ↔ e.text.pos < e.text.chars.length := by rw [sim.num_eq, sim.eol_eq]
  unfold Text.right
  by_cases inside : s.num < s.eolNum
  · rw [if_pos inside, dif_pos (same.mp inside)]
    exact sim.becomes (becomes_forward sim.fits inside) sim.line_eq
      (congrArg (· + 1) sim.num_eq)
  · rw [if_neg inside, dif_neg (same.not.mp inside)]
    exact sim

theorem left (sim : Simulates s e) :
    Simulates (if s.num ≠ 0 then { s.puts [0x08] with num := s.num - 1 } else s)
      { e with text := e.text.left } := by
  have num : s.num - 1 = e.text.left.pos := congrArg (· - 1) sim.num_eq
  split_ifs with first
  · exact sim.becomes (becomes_back s) sim.line_eq num
  · rw [not_not] at first
    rw [first] at num
    exact sim.becomes (Becomes.refl s) sim.line_eq (first.trans num)

theorem deleteChar (sim : Simulates s e) :
    Simulates s.deleteChar { e with text := e.text.delete } := by
  have erased : s.line.eraseIdx s.num = e.text.delete.chars := by
    rw [sim.line_eq, sim.num_eq]
    rfl
  by_cases inside : s.num < s.eolNum
  · exact sim.becomes (becomes_deleteChar sim.fits inside) erased sim.num_eq
  · rw [List.eraseIdx_of_length_le (by rwa [length_line, ← not_lt])] at erased
    rw [Cread.deleteChar, if_neg inside]
    exact sim.becomes (Becomes.refl s) erased sim.num_eq

theorem eraseToEol (env : ShellEnv) (sim : Simulates s e) :
    Simulates (s.eraseToEol env) { e with text := e.text.cut } := by
  have kept : s.line.take s.num = e.text.cut.chars := by
    rw [sim.line_eq, sim.num_eq]
    rfl
  exact sim.becomes (becomes_eraseToEol env sim.fits) kept sim.num_eq

theorem refreshToEol (sim : Simulates s e) :
    Simulates s.refreshToEol { e with text := e.text.atEnd } :=
  sim.becomes (becomes_refreshToEol sim.fits) sim.line_eq sim.eol_eq

theorem kill (env : ShellEnv) (sim : Simulates s e) :
    Simulates (s.beginningOfLine.eraseToEol env) { e with text := Text.empty } :=
  sim.becomes (becomes_kill env sim.fits) rfl rfl

theorem backspace (sim : Simulates s e) :
    Simulates s.backspace { e with text := e.text.rubout } := by
  unfold Text.rubout
  by_cases first : s.num = 0
  · rw [Cread.backspace, if_neg (not_not.mpr first), if_pos (sim.num_eq.symm.trans first)]
    exact sim
  · rw [if_neg (fun zero => first (sim.num_eq.trans zero))]
    apply sim.becomes (becomes_backspace sim.fits first)
    · rw [sim.line_eq, sim.num_eq]
      rfl
    · rw [sim.num_eq]
      rfl

theorem recallLine (env : ShellEnv) (sim : Simulates s e) (idle : e.pending = .nothing)
    {hist : Hist} {p : Option Recalled} (represents : hist.Represents (p.getD e.recalled)) :
    Simulates (s.recallLine env (hist, p.map fun q => q.line.1)) (e.recallLine p) := by
  have noEsc : ([] : List (BitVec 8)) = e.pending.bytes := by
    rw [idle]
    rfl
  cases p with
  | none => exact beep (e := e) { sim with esc_eq := noEsc, hist := represents }
  | some p =>
      have moved : Simulates { s with esc := [], hist := hist } { e with recalled := p } :=
        { sim with esc_eq := noEsc, hist := represents }
      exact moved.becomes (becomes_recallLine env sim.fits _ p.line.2) rfl rfl

/-- The next call, with a history of its own. -/
theorem readline {p : Recalled} (hist : s.hist.Represents p) (beeps_eq : s.beeps = e.beeps)
    (writes : s.WritesInside) : Simulates s.readline { e.prompt with recalled := p } where
  line_eq := rfl
  num_eq := rfl
  insert_eq := rfl
  esc_eq := rfl
  hist := hist
  beeps_eq := beeps_eq
  writes := writesInside_of (d := 0) (n := 1) rfl (by decide) writes

/-- Each key of the switch, TAB apart. -/
theorem switch (env : ShellEnv) (sim : Simulates s e) (idle : e.pending = .nothing)
    {key c : BitVec 8} (nonzero : c ≠ 0) (noTab : caseOf key ≠ .tab)
    (typed : caseOf key = .other → key = c) :
    Simulates (resume (Cread.switch env s key)) (e.press c nonzero (caseOf key)) := by
  have noEsc : s.esc = [] := by
    rw [sim.esc_eq, idle]
    rfl
  unfold Cread.switch
  cases label : caseOf key with
  | escape =>
      rw [if_pos noEsc, caseOf_escape key label]
      exact sim.pending .esc
  | ctlA => exact sim.home
  | ctlC =>
      have stored : (s.store 0 0).WritesInside :=
        writesInside_of (d := 0) (n := 1) rfl (by decide) sim.writes
      exact readline (s := s.store 0 0) sim.hist sim.beeps_eq stored
  | ctlF => exact sim.right
  | ctlB => exact sim.left
  | ctlD => exact sim.deleteChar
  | ctlK => exact sim.eraseToEol env
  | ctlE => exact sim.refreshToEol
  | ctlO => exact { sim with insert_eq := congrArg not sim.insert_eq }
  | ctlU => exact sim.kill env
  | del => exact sim.backspace
  | ctlP =>
      have answer := sim.hist.histPrev
      have recalled := sim.recallLine env idle answer.1
      rw [← answer.2] at recalled
      exact recalled
  | ctlN =>
      have answer := sim.hist.histNext
      have recalled := sim.recallLine env idle answer.1
      rw [← answer.2] at recalled
      exact recalled
  | tab => exact absurd label noTab
  | other =>
      rw [typed label]
      exact sim.creadAddChar c nonzero

/-- The first character decides what is kept. -/
theorem kept_iff {buf : ℕ → BitVec 8} {str : List (BitVec 8)} (isString : IsString str)
    (chars : (List.range str.length).map buf = str) (stop : buf str.length = 0) :
    buf 0 ≠ 0 ∧ buf 0 ≠ 0x21 ↔ Kept str := by
  cases str with
  | nil => exact iff_of_false (fun kept => kept.1 stop) (fun kept => kept.1 rfl)
  | cons c rest =>
      have first : buf 0 = c := by
        rw [List.length_cons, List.range_succ_eq_map, List.map_cons] at chars
        exact (List.cons.inj chars).1
      have nonzero := isString.nonzero c List.mem_cons_self
      rw [first, Kept, List.head?_cons]
      simp only [ne_eq, nonzero, not_false_eq_true, true_and, reduceCtorEq, Option.some.injEq]

/-- Return. -/
theorem enter (sim : Simulates s e) :
    Simulates (s.puts [0x0D, 0x0A]).finish.readline e.enter := by
  have eol := sim.eol_eq
  have isString := e.text.isString
  have stored : (s.store s.eolNum 0).WritesInside :=
    writesInside_of (d := s.eolNum) (n := 1) rfl (Nat.succ_le_succ sim.fits.eol_le) sim.writes
  have stop : (s.store s.eolNum 0).buf e.text.chars.length = 0 := by
    rw [← eol]
    exact Function.update_self _ _ _
  have chars : (List.range e.text.chars.length).map (s.store s.eolNum 0).buf = e.text.chars := by
    rw [← eol, ← sim.line_eq]
    exact map_buf_terminated s
  have kept := kept_iff isString chars stop
  have str : (s.store s.eolNum 0).cstr = e.text.chars := cstr_eq isString chars stop
  have hist : (s.puts [0x0D, 0x0A]).finish.hist.Represents
      (if Kept e.text.chars then Past.push e.recalled ⟨e.text.chars, isString⟩
        else Past.rewind e.recalled) := by
    rw [finish_hist]
    simp only [kept, str]
    split_ifs
    · exact sim.hist.creadAddToHist ⟨e.text.chars, isString⟩
    · exact sim.hist.rewind
  exact readline hist sim.beeps_eq stored

/-- One byte, TAB apart. -/
theorem sessionByte (env : ShellEnv) (sim : Simulates s e) {c : BitVec 8} (noTab : c ≠ 0x09) :
    Simulates (s.sessionByte env c) (e.byte c) := by
  have esc := sim.esc_eq
  unfold Cread.sessionByte creadByte Editor.byte
  by_cases null : c = 0
  · rw [if_pos null, dif_neg (not_not.mpr null)]
    exact sim
  rw [if_neg null, dif_pos null]
  by_cases newline : c = 0x0A ∨ c = 0x0D
  · rw [if_pos newline, if_pos newline]
    exact sim.enter
  rw [if_neg newline, if_neg newline]
  cases pending : e.pending with
  | nothing =>
      rw [pending] at esc
      have noEsc : s.esc = [] := esc
      have single : ¬ s.esc.length = 1 := by
        rw [noEsc]
        exact zero_ne_one
      rw [if_neg single, if_neg (not_not.mpr noEsc)]
      exact sim.switch env pending null (fun tab => noTab (caseOf_tab c tab)) fun _ => rfl
  | esc =>
      rw [pending] at esc
      have single : s.esc.length = 1 := by rw [esc]; rfl
      rw [if_pos single]
      split_ifs with open_
      · have begun : s.esc ++ [c] = Pending.bracket.bytes := by
          rw [esc, open_]
          rfl
        rw [begun]
        exact sim.pending .bracket
      · rw [esc]
        exact (sim.creadAddChar 0x1B (by decide)).pending .nothing
  | bracket =>
      rw [pending] at esc
      have begun : s.esc = [0x1B, 0x5B] := esc
      have double : ¬ s.esc.length = 1 := by
        rw [begun]
        exact Nat.succ_ne_self 1
      rw [if_neg double, if_pos (by rw [begun]; exact List.cons_ne_nil _ _)]
      cases known : escKey c with
      | none =>
          have typed := ((sim.creadAddChar 0x1B (by decide)).creadAddChar 0x5B
            (by decide)).creadAddChar c null
          rw [begun]
          exact typed.pending .nothing
      | some key =>
          obtain ⟨-, -, noTab, noChar⟩ := caseOf_escKey known
          exact (sim.pending .nothing).switch env rfl null noTab fun typed => absurd typed noChar

end Simulates

theorem simulates_start (buf : ℕ → BitVec 8) :
    Simulates (start buf Hist.histInit) Editor.first :=
  Simulates.readline (e := Editor.first) Hist.represents_histInit rfl
    (fun _ mem => absurd mem List.not_mem_nil)

/-- The bytes of a session, TAB apart. -/
theorem simulates_run (env : ShellEnv) {bytes : List (BitVec 8)} (noTab : 0x09 ∉ bytes) {s : Cread}
    {e : Editor} (sim : Simulates s e) :
    Simulates (run (Cread.sessionByte env) s bytes) (run Editor.byte e bytes) := by
  induction bytes generalizing s e with
  | nil => exact sim
  | cons c bytes ih =>
      rw [List.mem_cons, not_or] at noTab
      exact ih noTab.2 (sim.sessionByte env (Ne.symm noTab.1))

/-- After any bytes but TAB the cursor is in the line and the line in the buffer, every
write has been to the buffer, and the line, the cursor and the beeps are the editor's. -/
theorem cread_line_implements_editor (env : ShellEnv) (buf : ℕ → BitVec 8)
    (bytes : List (BitVec 8)) (noTab : 0x09 ∉ bytes) :
    let s := run (Cread.sessionByte env) (start buf Hist.histInit) bytes
    let e := run Editor.byte Editor.first bytes
    (s.num ≤ s.eolNum ∧ s.eolNum ≤ cbSize) ∧ (∀ i ∈ s.writes, i ≤ cbSize) ∧
      s.line = e.text.chars ∧ s.num = e.text.pos ∧ s.beeps = e.beeps := by
  have sim := simulates_run env noTab (simulates_start buf)
  exact ⟨⟨sim.fits.num_le, sim.fits.eol_le⟩, sim.writes, sim.line_eq, sim.num_eq, sim.beeps_eq⟩

/-- `a`, `^A`, `b`, up, an unknown escape sequence and a backspace. -/
theorem cread_line_implements_editor_keys :
    (0x09 : BitVec 8) ∉ [0x61, 0x01, 0x62, 0x1B, 0x5B, 0x41, 0x1B, 0x5B, 0x5A, 0x08] ∧
      (run (Cread.sessionByte .plain) (start (fun _ => 0) Hist.histInit)
        [0x61, 0x01, 0x62, 0x1B, 0x5B, 0x41, 0x1B, 0x5B, 0x5A, 0x08]).line =
      (run Editor.byte Editor.first
        [0x61, 0x01, 0x62, 0x1B, 0x5B, 0x41, 0x1B, 0x5B, 0x5A, 0x08]).text.chars :=
  ⟨by decide, (cread_line_implements_editor .plain (fun _ => 0) _ (by decide)).2.2.1⟩

end CannonCar.Shell
