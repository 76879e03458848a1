import CannonCar.Shell.Line
import CannonCar.Shell.ParseLine

/-!
# Completion on TAB

`cmd_auto_complete` copies the line to `tmp_buf`, takes it apart there, has the matches of
its last word put into `cmdv`, and appends to the line what they agree on.  Four arrays are
stored to on the way, of four sizes: the indices stored to go along, those outside of `argv`
alone, and what a store behind an array hits is not modelled.

The commands come as a table.  `DoHelpComplete` is the completion function of `help`; what
other commands bring along is an `ArgCompleter`, which keeps to what it is told.

## What is load-bearing

**The call of another command's function is a parameter with proofs.**  `ArgCompleter` has what
`complete_cmdv` relies on as fields: it stores within `maxv`, and what it finds completes the
last argument.  `ArgCompleter.ofWords` is one, for arguments that are one of a few words.

**The copies are separate buffers.**  `tmp_buf` is scanned and cut, the line itself is not; pointers
into either are not mixed up because the words are lists by the time they are compared.

**Lengths are eight bits wide in three places**: that of the line, of a name, and of what
`print_argv` counts along.  They are reduced where the source stores them.
-/

namespace CannonCar.Shell

open Cread MachineInt Words

/-! ## The table -/

/-- A string of the program. -/
abbrev CString := { str : List (BitVec 8) // ∀ c ∈ str, c ≠ 0 }

/-- A completion function for the arguments of a command.  It stores to the first entries of
`cmdv`, `maxv` at most, and those it returns the number of complete the last argument. -/
structure ArgCompleter where
  complete : List (List (BitVec 8)) → BitVec 8 → ℕ → List (Option CString) × ℕ
  inside : ∀ argv lastChar maxv, (complete argv lastChar maxv).1.length ≤ maxv
  found : ∀ argv lastChar maxv, ∀ i < (complete argv lastChar maxv).2, ∃ word : CString,
    (complete argv lastChar maxv).1[i]? = some (some word) ∧ argv.getLastD [] <+: word.1

/-- Completion of a last argument that is one of a few words. -/
def ArgCompleter.ofWords (options : List CString) : ArgCompleter where
  complete argv _ maxv :=
    let matching := (options.filter fun word => (argv.getLastD []).isPrefixOf word.1).take maxv
    (matching.map some, matching.length)
  inside argv _ maxv := by
    rw [List.length_map]
    exact List.length_take_le ..
  found argv _ maxv i lt := by
    refine ⟨_, by rw [List.getElem?_map, List.getElem?_eq_getElem lt, Option.map_some], ?_⟩
    have mem := List.mem_of_mem_take (List.getElem_mem lt)
    exact List.isPrefixOf_iff_prefix.mp (List.mem_filter.mp mem).2

/-- The completion functions there are: that of `help`, and those of other commands. -/
inductive Completer
  | doHelpComplete
  | other (f : ArgCompleter)

/-- `cmd_tbl_t`, as far as completion reads it. -/
structure CmdTbl where
  name : CString
  complete : Option Completer

/-- What completion depends on besides the line. -/
structure CompleteEnv where
  table : List CmdTbl
  prompt : List (BitVec 8)
  /-- What lies in `tmp_buf`, `argv` and `cmdv` before. -/
  tmpBuf : ℕ → BitVec 8
  argv : ℕ → Option ℕ
  cmdv : ℕ → Option CString
  /-- The text `vsnprintf` makes of a format it is given nothing for. -/
  format : List (BitVec 8) → List (BitVec 8)
  /-- The bytes from the end of the print buffer on. -/
  stack : ℕ → BitVec 8

/-- `shell_find_command`. -/
def CmdTbl.shellFindCommand (table : List CmdTbl) (cmd : List (BitVec 8)) : Option CmdTbl :=
  table.find? fun cmdp => cmdp.name.1 = cmd

/-! ## Taking the line apart -/

/-- `make_argv`. -/
def makeArgv (s : ℕ → BitVec 8) (argvsz : ℕ) (argv : ℕ → Option ℕ) : Tokens.Scan (BitVec 8) :=
  Tokens.scan blankSeparated (cbSize + 1) argvsz (argvsz - 1) s 0 argv

/-! ## Matches -/

/-- `cmdv`, and the indices of it stored to. -/
structure Cmdv where
  cmdv : ℕ → Option CString
  stores : List ℕ

namespace Cmdv

/-- `cmdv[i] = v`. -/
def store (c : Cmdv) (i : ℕ) (v : Option CString) : Cmdv :=
  ⟨Function.update c.cmdv i v, i :: c.stores⟩

/-- Stores to the first entries. -/
def storeAll (c : Cmdv) (vs : List (Option CString)) : Cmdv :=
  ⟨fun i => if i < vs.length then vs.getD i none else c.cmdv i, List.range vs.length ++ c.stores⟩

end Cmdv

def dots : CString := ⟨ascii "...", by decide⟩

/-- The loop of `complete_cmdv` over all commands. -/
def listAll (maxv : ℕ) : List CmdTbl → Cmdv → ℕ → Cmdv × ℕ
  | [], c, nFound => (c, nFound)
  | cmdp :: table, c, nFound =>
      if nFound ≥ maxv - 2 then (c.store nFound dots, nFound)
      else listAll maxv table (c.store nFound cmdp.name) (nFound + 1)

/-- The loop of `complete_cmdv` over the commands a word begins the name of. -/
def listMatches (maxv : ℕ) (word : List (BitVec 8)) : List CmdTbl → Cmdv → ℕ → Cmdv × ℕ
  | [], c, nFound => (c, nFound)
  | cmdp :: table, c, nFound =>
      let clen := toUnsigned 8 cmdp.name.1.length
      if clen < word.length then listMatches maxv word table c nFound
      else if cmdp.name.1.take word.length ≠ word then listMatches maxv word table c nFound
      else if nFound ≥ maxv - 2 then (c.store nFound dots, nFound + 1)
      else listMatches maxv word table (c.store nFound cmdp.name) (nFound + 1)

/-- The loop of `DoHelpComplete`. -/
def helpMatches (word : List (BitVec 8)) : List CmdTbl → Cmdv → ℕ → Cmdv × ℕ
  | [], c, found => (c, found)
  | cmdp :: table, c, found =>
      let strLen := toUnsigned 8 word.length
      if word.take strLen = cmdp.name.1.take strLen then
        helpMatches word table (c.store found cmdp.name) (toUnsigned 8 (found + 1))
      else helpMatches word table c found

/-- `DoHelpComplete`. -/
def doHelpComplete (table : List CmdTbl) (argv : List (List (BitVec 8))) (c : Cmdv) : Cmdv × ℕ :=
  if argv.length = 2 then helpMatches (argv.getLastD []) table c 0 else (c, 0)

/-- `(*cmdp->complete)(argc, argv, last_char, maxv, cmdv)`. -/
def Completer.run (table : List CmdTbl) (argv : List (List (BitVec 8))) (lastChar : BitVec 8)
    (maxv : ℕ) (c : Cmdv) : Completer → Cmdv × ℕ
  | doHelpComplete => Shell.doHelpComplete table argv c
  | other f => (c.storeAll (f.complete argv lastChar maxv).1, (f.complete argv lastChar maxv).2)

/-- `complete_cmdv`. -/
def completeCmdv (table : List CmdTbl) (argv : List (List (BitVec 8))) (lastChar : BitVec 8)
    (maxv : ℕ) (c : Cmdv) : Cmdv × ℤ :=
  if maxv < 2 then (c, -2)
  else
    let c := c.store 0 none
    if argv.length = 0 then
      let (c, nFound) := listAll maxv table c 0
      (c, nFound)
    else if argv.length > 1 ∨ lastChar = 0 ∨ isblank lastChar then
      match (CmdTbl.shellFindCommand table (argv.getD 0 [])).bind CmdTbl.complete with
      | none => (c.store 0 none, 0)
      | some complete =>
          let (c, nFound) := complete.run table argv lastChar maxv c
          (c, nFound)
    else
      let (c, nFound) := listMatches maxv (argv.getD 0 []) table c 0
      (c.store nFound none, nFound)

/-! ## What the matches agree on -/

/-- The inner loop of `find_common_prefix`: the two are compared from the second character
on, as far as `len` characters. -/
def commonLen (anchor t : List (BitVec 8)) (len : ℕ) : ℕ :=
  match (List.range len).find? fun i => t.getD (i + 1) 0 ≠ anchor.getD (i + 1) 0 with
  | some i => i + 1
  | none => len

/-- The outer loop. -/
def commonPrefix (anchor : List (BitVec 8)) (argv : ℕ → Option CString) : ℕ → ℕ → ℕ → ℕ
  | 0, _, len => len
  | num + 1, j, len =>
      match argv j with
      | none => len
      | some t => commonPrefix anchor argv num (j + 1) (commonLen anchor t.1 len)

/-- `find_common_prefix`. -/
def findCommonPrefix (argv : ℕ → Option CString) (num : ℕ) : ℕ :=
  match argv 0 with
  | none => 0
  | some anchor => commonPrefix anchor.1 argv num 0 (toUnsigned 8 anchor.1.length)

/-! ## Printing the matches -/

/-- `shell_printf` of a format alone. -/
def CompleteEnv.send (env : CompleteEnv) (fmt : List (BitVec 8)) : List (BitVec 8) :=
  shellPrintf { ShellEnv.plain with stack := env.stack } (env.format fmt)

/-- The loop of `print_argv`. -/
def printLoop (env : CompleteEnv) (leader sep : List (BitVec 8)) (linemax : ℕ) :
    List CString → ℕ → List (BitVec 8)
  | [], _ => []
  | a :: argv, i =>
      let len := toUnsigned 8 (a.1.length + sep.length)
      if i + len ≥ linemax then
        env.send (ascii "\r\n") ++ env.send leader ++ env.send a.1 ++
          printLoop env leader sep linemax argv
            (toUnsigned 8 (toUnsigned 8 (leader.length - sep.length) + len))
      else
        env.send sep ++ env.send a.1 ++
          printLoop env leader sep linemax argv (toUnsigned 8 (i + len))

/-- `print_argv(NULL, leader, sep, linemax, argv, num)`. -/
def printArgv (env : CompleteEnv) (leader sep : List (BitVec 8)) (linemax : ℕ)
    (argv : ℕ → Option CString) (num : ℕ) : List (BitVec 8) :=
  printLoop env leader sep linemax
      (((List.range num).map argv).takeWhile Option.isSome).reduceOption linemax ++
    env.send (ascii "\r\n")

/-! ## Completing -/

/-- What `cmd_auto_complete` leaves: the line, `*np`, `*colp`, what it has sent, whether it
returns 1, and where it has stored. -/
structure Completed where
  buf : ℕ → BitVec 8
  np : ℕ
  colp : ℕ
  sent : List (BitVec 8)
  done : Bool
  tmpStores : List ℕ
  /-- The indices behind `argv` stored to. -/
  argvStray : List ℕ
  cmdvStores : List ℕ
  bufStores : List ℕ

/-- What goes behind the line: a number of characters from `s` on, and a separator. -/
structure Insertion where
  s : List (BitVec 8)
  len : ℕ
  sep : Option (List (BitVec 8))

/-- `len + seplen`. -/
def Insertion.length (i : Insertion) : ℕ := i.len + (i.sep.getD []).length

def Insertion.text (i : Insertion) : List (BitVec 8) := i.s.take i.len ++ i.sep.getD []

/-- What is inserted where `i` matches have been found for a word of `k` characters. -/
def insertion (argv : ℕ → Option CString) (i : ℤ) (k : ℕ) : Option Insertion :=
  let s := ((argv 0).elim [] fun word => word.1).drop k
  if i = 1 then some ⟨s, s.length, some (ascii " ")⟩
  else
    let j := findCommonPrefix argv (toUnsigned 8 i)
    if i > 1 ∧ j ≠ 0 ∧ (j : ℤ) - k > 0 then some ⟨s, j - k, none⟩ else none

/-- `cmd_auto_complete` behind `complete_cmdv`, which has returned `i`. -/
def addMatches (env : CompleteEnv) (argv : List (List (BitVec 8))) (cmdv : ℕ → Option CString)
    (i : ℤ) (cnt : ℕ) (r : Completed) : Completed :=
  if argv.length = 0 then r
  else if i = 0 then
    if argv.length > 1 then { r with done := false } else { r with sent := [0x07] }
  else
    match insertion cmdv i (argv.getLastD []).length with
    | some ins =>
        let k := ins.length
        if r.np + k ≥ cbSize - 2 then { r with sent := [0x07] }
        else
          let buf := fun j =>
            if cnt ≤ j ∧ j < cnt + k then ins.text.getD (j - cnt) 0
            else if j = cnt + k then 0 else r.buf j
          { r with
            buf := buf, np := toUnsigned 8 (r.np + k), colp := toUnsigned 8 (r.colp + k),
            sent := env.send (stringAt buf cnt) ++ if ins.sep = none then [0x07] else [],
            bufStores := List.range' cnt (k + 1) }
    | none =>
        { r with
          sent := printArgv env (ascii "  ") (ascii " ") 78 cmdv (toUnsigned 8 i) ++
            env.send env.prompt ++ env.send (stringAt r.buf 0) }

/-- `strcpy(tmp_buf, buf)`, and `make_argv` of the copy. -/
def splitCopy (env : CompleteEnv) (str : List (BitVec 8)) : Tokens.Scan (BitVec 8) :=
  let tmpBuf := fun j =>
    if j < str.length then str.getD j 0 else if j = str.length then 0 else env.tmpBuf j
  makeArgv tmpBuf (20 + 1) env.argv

/-- `cmd_auto_complete(prompt, buf, np, colp)`. -/
def cmdAutoComplete (env : CompleteEnv) (buf : ℕ → BitVec 8) (np colp : ℕ) : Completed :=
  let str := stringAt buf 0
  let cnt := toUnsigned 8 str.length
  let lastChar := if cnt ≥ 1 then buf (cnt - 1) else 0
  let a := splitCopy env str
  let argv := a.args blankSeparated (cbSize + 1)
  let c := completeCmdv env.table argv lastChar 20 ⟨env.cmdv, []⟩
  addMatches env argv c.1.cmdv c.2 cnt
    { buf := buf, np := np, colp := colp, sent := [], done := true,
      tmpStores := List.range (str.length + 1) ++ a.cuts, argvStray := a.stray,
      cmdvStores := c.1.stores, bufStores := [] }

/-- The line editor with this completion. -/
def CompleteEnv.shell (env : CompleteEnv) : ShellEnv where
  promptLen := env.prompt.length
  stack := env.stack
  cmdAutoComplete buf n col :=
    let r := cmdAutoComplete env buf n col
    (r.buf, r.np, r.sent, r.done)

end CannonCar.Shell
