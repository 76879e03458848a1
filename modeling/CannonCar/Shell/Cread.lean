import CannonCar.Foundation.MachineInt
import CannonCar.Foundation.Trajectory

/-!
# The line editor of the shell

`cread_line` of `shell.c`, one received byte at a time, with its history and the macros
and helpers it is written with.

The state of a call is `Cread`: the locals, the line buffer, the history statics, and
what the call has sent to the terminal since the prompt.  `creadByte` is one turn of its
loop, `sessionByte` goes on with the next call where one returns.  Two logs go along: the
indices of the buffer that have been written, and the number of beeps.

What lies outside the file comes with a `ShellEnv`: completion on TAB, and the bytes
behind the print buffer, which `shell_printf` sends when the text is too long.

## Modelling decisions

**A call is cut at its bytes.**  `cread_line` waits for a byte in its loop and once more behind an
escape character; `Cread` is its state between two of them, and what a byte leads to is an
`Outcome`: the call goes on, returns a line, or is abandoned with `^C`.

**The line buffer is a function of the index**, with the indices written in a log, so that a store
outside of it is something one can state; the strings in the history are lists.

**Eight bits where the source has them.**  The lengths that go through `uint8_t` and the
indices of the history in `int8_t` are reduced at the places where the source stores them.

`ShellEnv` holds what is not in this file, and nothing is assumed of it here.  Completion is
filled in by `Autocomplete`.
-/

namespace CannonCar.Shell

open MachineInt Trajectory

/-- `SHELL_CB_SIZE`. -/
def cbSize : ℕ := 128

/-- `HIST_MAX`. -/
def histCapacity : ℤ := 10

/-- The bytes of a string of the program. -/
def ascii (text : String) : List (BitVec 8) := text.toList.map fun c => BitVec.ofNat 8 c.toNat

/-- What the line editor depends on outside its file. -/
structure ShellEnv where
  /-- The length of the prompt. -/
  promptLen : ℕ
  /-- The bytes from the end of the print buffer on. -/
  stack : ℕ → BitVec 8
  /-- `cmd_auto_complete`: from the buffer, `*np` and `*colp`, the new buffer, the new
  `*np`, what is sent, and the return value. -/
  cmdAutoComplete : (ℕ → BitVec 8) → ℕ → ℕ → (ℕ → BitVec 8) × ℕ × List (BitVec 8) × Bool

/-- No prompt, and nothing to complete. -/
def ShellEnv.plain : ShellEnv := ⟨0, fun _ => 0, fun buf n _ => (buf, n, [], false)⟩

/-- `shell_printf`, given the formatted text: the print buffer keeps all but the last of
its bytes and a terminator, and as many bytes are sent as the text has, in 8 bits. -/
def shellPrintf (env : ShellEnv) (text : List (BitVec 8)) : List (BitVec 8) :=
  (List.range (toUnsigned 8 text.length)).map fun i =>
    if i < cbSize - 1 then text.getD i 0 else if i = cbSize - 1 then 0 else env.stack i

/-- A string of the buffer's length at most, without its terminator inside. -/
structure IsString (str : List (BitVec 8)) : Prop where
  length_le : str.length ≤ cbSize
  nonzero : ∀ c ∈ str, c ≠ 0

instance (str : List (BitVec 8)) : Decidable (IsString str) :=
  decidable_of_iff (str.length ≤ cbSize ∧ ∀ c ∈ str, c ≠ 0)
    ⟨fun h => ⟨h.1, h.2⟩, fun h => ⟨h.1, h.2⟩⟩

/-- A list read off a buffer, entry by entry. -/
theorem map_range_eq {α : Type*} {f : ℕ → α} {xs : List α} {n : ℕ} (length : xs.length = n)
    (entry : ∀ i (h : i < xs.length), f i = xs[i]) : (List.range n).map f = xs := by
  apply List.ext_getElem
  · rw [List.length_map, List.length_range, length]
  · intro i h h'
    rw [List.getElem_map, List.getElem_range, entry i h']

/-! ## History -/

/-- The statics of the history.  `hist_list[i]` is `hist_lines[i]` throughout, and holds a
string. -/
structure Hist where
  histMax : ℤ
  histAddIdx : ℤ
  histCur : ℤ
  histList : ℤ → List (BitVec 8)

namespace Hist

/-- `hist_init`. -/
def histInit : Hist := ⟨0, 0, -1, fun _ => []⟩

/-- `cread_add_to_hist`. -/
def creadAddToHist (h : Hist) (line : List (BitVec 8)) : Hist :=
  let histList := Function.update h.histList h.histAddIdx line
  let histAddIdx := toSigned 8 (h.histAddIdx + 1)
  let histAddIdx := if histAddIdx ≥ histCapacity then 0 else histAddIdx
  { h with histList := histList, histAddIdx := histAddIdx,
           histMax := if histAddIdx > h.histMax then histAddIdx else h.histMax }

/-- `hist_prev`. -/
def histPrev (h : Hist) : Hist × Option (List (BitVec 8)) :=
  if h.histCur < 0 then (h, none)
  else
    let oldCur := toUnsigned 8 h.histCur
    let histCur := toSigned 8 (h.histCur - 1)
    let histCur := if histCur < 0 then h.histMax else histCur
    if histCur = h.histAddIdx then ({ h with histCur := toSigned 8 oldCur }, none)
    else ({ h with histCur := histCur }, some (h.histList histCur))

/-- `hist_next`. -/
def histNext (h : Hist) : Hist × Option (List (BitVec 8)) :=
  if h.histCur < 0 then (h, none)
  else if h.histCur = h.histAddIdx then (h, none)
  else
    let histCur := toSigned 8 (h.histCur + 1)
    let histCur := if histCur > h.histMax then 0 else histCur
    ({ h with histCur := histCur },
      some (if histCur = h.histAddIdx then [] else h.histList histCur))

end Hist

/-! ## The state of a call -/

/-- A call of `cread_line`. -/
structure Cread where
  buf : ℕ → BitVec 8
  num : ℕ
  eolNum : ℕ
  insert : Bool
  /-- `esc_save[0..esc_len)`. -/
  esc : List (BitVec 8)
  hist : Hist
  /-- What has been sent since the prompt. -/
  out : List (BitVec 8)
  /-- The indices of `buf` written. -/
  writes : List ℕ
  /-- The calls of `shell_beep`. -/
  beeps : ℕ

/-- What a turn of the loop comes to. -/
inductive Outcome
  | reading
  | entered
  | interrupted
  deriving DecidableEq

namespace Cread

/-- `sputc`, for one byte after the other. -/
def puts (s : Cread) (chs : List (BitVec 8)) : Cread := { s with out := s.out ++ chs }

/-- `shell_beep`. -/
def shellBeep (s : Cread) : Cread := { s with out := s.out ++ [0x07], beeps := s.beeps + 1 }

/-- `putnstr(buf + start, n)`. -/
def putnstr (s : Cread) (start n : ℕ) : Cread :=
  s.puts ((List.range (toUnsigned 8 n)).map fun i => s.buf (start + i))

/-- `buf[i] = v`. -/
def store (s : Cread) (i : ℕ) (v : BitVec 8) : Cread :=
  { s with buf := Function.update s.buf i v, writes := i :: s.writes }

/-- `memmove(&buf[dst], &buf[src], n)`. -/
def memmove (s : Cread) (dst src n : ℕ) : Cread :=
  { s with
    buf := fun j => if dst ≤ j ∧ j < dst + n then s.buf (src + (j - dst)) else s.buf j
    writes := List.range' dst n ++ s.writes }

/-- `strcpy(buf, str)`. -/
def strcpy (s : Cread) (str : List (BitVec 8)) : Cread :=
  { s with
    buf := fun j => if j < str.length then str.getD j 0 else if j = str.length then 0 else s.buf j
    writes := List.range (str.length + 1) ++ s.writes }

/-- The string in `buf`. -/
def cstr (s : Cread) : List (BitVec 8) := ((List.range (cbSize + 1)).map s.buf).takeWhile (· ≠ 0)

/-! ## The macros -/

/-- `BEGINNING_OF_LINE`. -/
def beginningOfLine (s : Cread) : Cread := { s.puts (List.replicate s.num 0x08) with num := 0 }

/-- `ERASE_TO_EOL`: blanks, then a backspace each until `eol_num` is `num`. -/
def eraseToEol (env : ShellEnv) (s : Cread) : Cread :=
  if s.num < s.eolNum then
    let s' := s.puts (shellPrintf env (List.replicate (s.eolNum - s.num) 0x20))
    { s'.puts (List.replicate (s.eolNum - s.num) 0x08) with eolNum := s.num }
  else s

/-- `REFRESH_TO_EOL`. -/
def refreshToEol (s : Cread) : Cread :=
  if s.num < s.eolNum then
    let wlen := toUnsigned 8 (s.eolNum - s.num)
    { s.putnstr s.num wlen with num := s.eolNum }
  else s

/-! ## Adding characters -/

/-- `cread_add_char(ichar, insert, &num, &eol_num, buf, SHELL_CB_SIZE)`. -/
def creadAddChar (ichar : BitVec 8) (insert : Bool) (s : Cread) : Cread :=
  let grows := insert ∨ s.num = s.eolNum
  if grows ∧ s.eolNum > cbSize - 1 then s.shellBeep
  else
    let s := if grows then { s with eolNum := toUnsigned 8 (s.eolNum + 1) } else s
    if insert then
      let wlen := toUnsigned 32 (s.eolNum - s.num)
      let s := if wlen > 1 then s.memmove (s.num + 1) s.num (wlen - 1) else s
      let s := (s.store s.num ichar).putnstr s.num wlen
      let s := { s with num := toUnsigned 8 (s.num + 1) }
      s.puts (List.replicate (toUnsigned 32 (wlen - 1)) 0x08)
    else
      let s := (s.store s.num ichar).putnstr s.num 1
      { s with num := toUnsigned 8 (s.num + 1) }

/-- `cread_add_str`, in the call's insert mode. -/
def creadAddStr (s : Cread) (str : List (BitVec 8)) : Cread :=
  str.foldl (fun s ichar => s.creadAddChar ichar s.insert) s

/-! ## The switch -/

/-- The case labels of the main switch. -/
inductive Case
  | escape
  | ctlA
  | ctlC
  | ctlF
  | ctlB
  | ctlD
  | ctlK
  | ctlE
  | ctlO
  | ctlU
  | del
  | ctlP
  | ctlN
  | tab
  | other
  deriving DecidableEq

/-- The case a byte belongs to. -/
def caseOf (ichar : BitVec 8) : Case :=
  if ichar = 0x1B then .escape
  else if ichar = 1 then .ctlA
  else if ichar = 3 then .ctlC
  else if ichar = 6 then .ctlF
  else if ichar = 2 then .ctlB
  else if ichar = 4 then .ctlD
  else if ichar = 11 then .ctlK
  else if ichar = 5 then .ctlE
  else if ichar = 15 then .ctlO
  else if ichar = 24 ∨ ichar = 21 then .ctlU
  else if ichar = 255 ∨ ichar = 127 ∨ ichar = 8 then .del
  else if ichar = 16 then .ctlP
  else if ichar = 14 then .ctlN
  else if ichar = 9 then .tab
  else .other

/-- `^D`: the character under the cursor goes. -/
def deleteChar (s : Cread) : Cread :=
  if s.num < s.eolNum then
    let wlen := toUnsigned 8 (s.eolNum - s.num - 1)
    let s := if wlen ≠ 0 then (s.memmove s.num (s.num + 1) wlen).putnstr s.num wlen else s
    let s := (s.puts [0x20]).puts (List.replicate (wlen + 1) 0x08)
    { s with eolNum := toUnsigned 8 (s.eolNum - 1) }
  else s

/-- Backspace and DEL: the character before the cursor goes. -/
def backspace (s : Cread) : Cread :=
  if s.num ≠ 0 then
    let wlen := toUnsigned 8 (s.eolNum - s.num)
    let s := { s with num := s.num - 1 }
    let s := (s.memmove s.num (s.num + 1) wlen).puts [0x08]
    let s := ((s.putnstr s.num wlen).puts [0x20]).puts (List.replicate (wlen + 1) 0x08)
    { s with eolNum := toUnsigned 8 (s.eolNum - 1) }
  else s

/-- `^P` and `^N`, with what `hist_prev` or `hist_next` answers. -/
def recallLine (env : ShellEnv) (s : Cread) (answer : Hist × Option (List (BitVec 8))) : Cread :=
  let s := { s with esc := [], hist := answer.1 }
  match answer.2 with
  | none => s.shellBeep
  | some hline =>
      let s := (s.beginningOfLine.eraseToEol env).strcpy hline
      { s with eolNum := toUnsigned 8 s.cstr.length }.refreshToEol

/-- TAB. -/
def complete (env : ShellEnv) (s : Cread) : Cread :=
  if s.num < s.eolNum then s.shellBeep
  else
    let s := s.store s.num 0
    let (buf, num2, sent, done) :=
      env.cmdAutoComplete s.buf s.num (toUnsigned 8 (env.promptLen + s.eolNum))
    let s := { s.puts sent with buf := buf }
    if done then
      let col := toUnsigned 8 (num2 - s.num)
      { s with num := toUnsigned 8 (s.num + col), eolNum := toUnsigned 8 (s.eolNum + col) }
    else s

/-- The text of the branch that is never taken. -/
def impossibleCondition : List (BitVec 8) := ascii "impossible condition #876\n"

/-- The main switch. -/
def switch (env : ShellEnv) (s : Cread) (ichar : BitVec 8) : Cread × Outcome :=
  match caseOf ichar with
  | .escape =>
      (if s.esc = [] then { s with esc := [ichar] }
       else { s.puts (shellPrintf env impossibleCondition) with esc := [] }, .reading)
  | .ctlA => (s.beginningOfLine, .reading)
  | .ctlC => (s.store 0 0, .interrupted)
  | .ctlF =>
      (if s.num < s.eolNum then
         { s.puts [s.buf s.num] with num := toUnsigned 8 (s.num + 1) }
       else s, .reading)
  | .ctlB => (if s.num ≠ 0 then { s.puts [0x08] with num := s.num - 1 } else s, .reading)
  | .ctlD => (s.deleteChar, .reading)
  | .ctlK => (s.eraseToEol env, .reading)
  | .ctlE => (s.refreshToEol, .reading)
  | .ctlO => ({ s with insert := !s.insert }, .reading)
  | .ctlU => (s.beginningOfLine.eraseToEol env, .reading)
  | .del => (s.backspace, .reading)
  | .ctlP => (s.recallLine env s.hist.histPrev, .reading)
  | .ctlN => (s.recallLine env s.hist.histNext, .reading)
  | .tab => (s.complete env, .reading)
  | .other => (s.creadAddChar ichar s.insert, .reading)

/-- The control character an escape sequence stands for. -/
def escKey (ichar : BitVec 8) : Option (BitVec 8) :=
  if ichar = 0x44 then some 2        -- 'D', left
  else if ichar = 0x43 then some 6   -- 'C', right
  else if ichar = 0x48 then some 1   -- 'H', Home
  else if ichar = 0x41 then some 16  -- 'A', up
  else if ichar = 0x42 then some 14  -- 'B', down
  else none

/-- What follows the loop once a line has been entered. -/
def finish (s : Cread) : Cread :=
  let s := s.store s.eolNum 0
  let hist := if s.buf 0 ≠ 0 ∧ s.buf 0 ≠ 0x21 then s.hist.creadAddToHist s.cstr else s.hist
  { s with hist := { hist with histCur := hist.histAddIdx } }

/-- One turn of the loop of `cread_line`, on the byte `sgetc` gives. -/
def creadByte (env : ShellEnv) (s : Cread) (ichar : BitVec 8) : Cread × Outcome :=
  if ichar = 0 then (s, .reading)
  else if ichar = 0x0A ∨ ichar = 0x0D then ((s.puts [0x0D, 0x0A]).finish, .entered)
  else if s.esc.length = 1 then
    if ichar = 0x5B then ({ s with esc := s.esc ++ [ichar] }, .reading)
    else ({ s.creadAddStr s.esc with esc := [] }, .reading)
  else if s.esc ≠ [] then
    match escKey ichar with
    | some key => switch env { s with esc := [] } key
    | none => ({ s.creadAddStr (s.esc ++ [ichar]) with esc := [] }, .reading)
  else switch env s ichar

/-- `readline` up to the first byte: the buffer is emptied, so the call starts with an
empty line. -/
def readline (s : Cread) : Cread :=
  { s.store 0 0 with num := 0, eolNum := 0, insert := true, esc := [], out := [] }

/-- Where a call returns, the next one begins. -/
def resume : Cread × Outcome → Cread
  | (s, .reading) => s
  | (s, _) => s.readline

/-- One byte of a session. -/
def sessionByte (env : ShellEnv) (s : Cread) (ichar : BitVec 8) : Cread :=
  resume (creadByte env s ichar)

/-- The first call, over whatever the buffer and the history hold. -/
def start (buf : ℕ → BitVec 8) (hist : Hist) : Cread :=
  readline ⟨buf, 0, 0, true, [], hist, [], [], 0⟩

end Cread

end CannonCar.Shell
