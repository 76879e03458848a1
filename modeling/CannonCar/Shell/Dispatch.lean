import CannonCar.Foundation.Trajectory
import CannonCar.Shell.Editor
import CannonCar.Shell.ParseLine
import CannonCar.Shell.Print

/-!
# The main loop of the shell

`shell_main_loop` reads a line, parses it, looks the first word up and runs the handler.
An iteration is given the line `readline` leaves in `console_buffer` and what a handler
would return; what it does comes out as events: texts printed, handlers run, and the two
things a C program must not do, a field read through `NULL` and a store outside `argv`.

Against it stands what the loop is written to do with a line, `dispatched`, in terms of
the words of the line.

## What is load-bearing

**Handlers are known by what they return.**  A line comes with the value its handler would return
(`Entry.line`); what a handler prints or changes is its own affair, but for `result`, which
outlives the iteration and is read in a later one.

**What must not happen is an event.**  A field read through `NULL` and a store outside `argv` are
events that `Event.isDefined` rejects, so that "nothing undefined" is a property of the run.

**`Sound` is about one iteration**: the line, the table, and the `result` an earlier line has
left.  It names the slips one by one, and `shell_main_loop_dispatches` says that a run without
them does what `dispatched` asks for.
-/

namespace CannonCar.Shell

open Cread MachineInt Trajectory Words

/-- `cmd_tbl_t`, as far as the loop reads it: `NULL` is `none`. -/
structure Command where
  name : List (BitVec 8)
  maxargs : ℕ
  /-- The address of the handler. -/
  cmd : Option ℕ
  usage : Option (List (BitVec 8))
  help : Option (List (BitVec 8))
  deriving DecidableEq

/-- `CMD_RET_USAGE`. -/
def cmdRetUsage : ℤ := -1

/-- What an iteration does. -/
inductive Event
  /-- Bytes sent by `shell_printf`. -/
  | printed (sent : List (BitVec 8))
  /-- The handler of a command is run. -/
  | ran (cmdtp : Command) (argv : List (List (BitVec 8)))
  /-- A field is read through `NULL`. -/
  | nullRead
  /-- `argv[i]` is stored to, outside the array. -/
  | strayStore (i : ℕ)
  deriving DecidableEq

/-- What a C program may do. -/
def Event.isDefined : Event → Bool
  | .printed _ => true
  | .ran _ _ => true
  | .nullRead => false
  | .strayStore _ => false

def Event.isRun : Event → Bool
  | .ran _ _ => true
  | _ => false

/-- A line that `cread_line` has left in `console_buffer`. -/
structure Entered where
  buf : ℕ → BitVec 8
  str : ShellString
  has : HasString buf 0 str.1

/-- What `readline` comes back with: a line, and what the handler will return if one is
run, or `-1` for `^C`. -/
inductive Entry
  | line (entered : Entered) (returned : ℤ)
  | interrupt

/-- The variables of `shell_main_loop` that outlive an iteration. -/
structure MainLoop where
  argv : ℕ → Option ℕ
  result : ℤ

/-! ## Texts -/

def tooManyText : List (BitVec 8) := ascii "** Too many args (max. 8) **\r\n"

def interruptText : List (BitVec 8) := ascii "<INTERRUPT>\r\n"

def unknownText (word : List (BitVec 8)) : List (BitVec 8) :=
  ascii "Unknown command '" ++ word ++ ascii "' - try 'help'\r\n"

/-- The texts of the usage branch, one for each `shell_printf`. -/
def usageTexts (c : Command) : List (List (BitVec 8)) :=
  (match c.usage with
    | some usage => [c.name ++ ascii " - " ++ usage ++ ascii "\r\n"]
    | none => []) ++
  (match c.help with
    | some help => [ascii "Usage:\r\n" ++ c.name ++ ascii " ", help ++ ascii "\r\n"]
    | none => [ascii "- No additional help available.\r\n"])

/-! ## The loop -/

/-- `shell_find_command`. -/
def shellFindCommand (table : List Command) (cmd : List (BitVec 8)) : Option Command :=
  table.find? fun cmdtp => cmdtp.name = cmd

/-- The string `argv[i]` points to. -/
def Parse.arg (p : Parse) (i : ℕ) : List (BitVec 8) :=
  match p.argv i with
  | some a => stringAt p.buf a
  | none => []

/-- `argv[0..argc)`. -/
def Parse.args (p : Parse) : List (List (BitVec 8)) := (List.range p.nargs).map p.arg

/-- What `parse_line` does besides. -/
def Parse.events (env : ShellEnv) (p : Parse) : List Event :=
  p.stray.map .strayStore ++ if p.tooMany then [.printed (shellPrintf env tooManyText)] else []

/-- The usage branch. -/
def usage (env : ShellEnv) : Option Command → List Event
  | some cmdtp => (usageTexts cmdtp).map fun text => .printed (shellPrintf env text)
  | none => [.nullRead]

/-- The iteration from `shell_find_command` on: the new `result`, and what is done. -/
def dispatch (env : ShellEnv) (table : List Command) (p : Parse) (result returned : ℤ) :
    ℤ × List Event :=
  let unknown := Event.printed (shellPrintf env (unknownText (p.arg 0)))
  let cmdtp := shellFindCommand table (p.arg 0)
  let (result, events) :=
    match cmdtp with
    | some c =>
        if c.cmd = none then (result, [unknown])
        else if p.nargs > c.maxargs then (cmdRetUsage, [])
        else (toSigned 8 returned, [.ran c p.args])
    | none => (result, [unknown])
  (result, events ++ if result = cmdRetUsage then usage env cmdtp else [])

/-- One iteration of `shell_main_loop`. -/
def iteration (env : ShellEnv) (table : List Command) (s : MainLoop) :
    Entry → MainLoop × List Event
  | .interrupt => (s, [.printed (shellPrintf env interruptText)])
  | .line entered returned =>
      let len := toSigned 8 entered.str.1.length
      if len > 0 then
        let p := parseLine entered.buf s.argv
        if p.nargs = 0 then ({ s with argv := p.argv }, p.events env)
        else
          let (result, events) := dispatch env table p s.result returned
          (⟨p.argv, result⟩, p.events env ++ events)
      else if len = -1 then (s, [.printed (shellPrintf env interruptText)])
      else (s, [])

/-- The loop as a system. -/
def MainLoop.next (env : ShellEnv) (table : List Command) (s : MainLoop) (entry : Entry) :
    MainLoop :=
  (iteration env table s entry).1

/-- What an iteration does. -/
def MainLoop.done (env : ShellEnv) (table : List Command) (s : MainLoop) (entry : Entry) :
    List Event :=
  (iteration env table s entry).2

/-! ## What a line is for -/

/-- The command a word names, if it has a handler. -/
def handlerOf (table : List Command) (word : List (BitVec 8)) : Option Command :=
  (shellFindCommand table word).filter fun c => c.cmd ≠ none

/-- What the loop is written to do with an entry.  Of a line it takes the first
`SHELL_MAX_ARGS` words, and says so if the line goes on behind them. -/
def dispatched (table : List Command) : Entry → List Event
  | .interrupt => [.printed interruptText]
  | .line entered returned =>
      (if Parse.Overflows shellMaxArgs entered.str.1 then [.printed tooManyText] else []) ++
      match (words isblank entered.str.1).take shellMaxArgs with
      | [] => []
      | first :: rest =>
          match handlerOf table first with
          | some c =>
              if (first :: rest).length > c.maxargs then (usageTexts c).map .printed
              else .ran c (first :: rest) ::
                if toSigned 8 returned = cmdRetUsage then (usageTexts c).map .printed else []
          | none => [.printed (unknownText first)]

/-- All the words of a line are taken: they go to the command if it takes that many, else
its usage text is printed, and of a word that is no command it is said that it is unknown. -/
def ServedWhole (table : List Command) : Entry → List Event → Prop
  | .interrupt, _ => True
  | .line entered _, done =>
      let argv := words isblank entered.str.1
      (∀ event ∈ done, event.isDefined) ∧
      ∀ first ∈ argv.head?,
        (∀ c ∈ handlerOf table first,
          if argv.length > c.maxargs then done = (usageTexts c).map .printed
          else done.filter Event.isRun = [.ran c argv]) ∧
        (handlerOf table first = none → done = [.printed (unknownText first)])

instance decidableServedWhole (table : List Command) :
    ∀ entry done, Decidable (ServedWhole table entry done)
  | .interrupt, _ => isTrue trivial
  | .line _ _, _ => inferInstanceAs (Decidable (_ ∧ ∀ first ∈ List.head? _, _ ∧ _))

/-- What an iteration needs so as to do what it is written to do.  The line is shorter than the
buffer, so that its length fits `int8_t`; `NULL` behind the last word has a place in `argv`; the
texts have room in the print buffer; and `result` is not `CMD_RET_USAGE` from an earlier line
where this one does not set it. -/
def Sound (table : List Command) (s : MainLoop) : Entry → Prop
  | .interrupt => True
  | .line entered returned =>
      let argv := (words isblank entered.str.1).take shellMaxArgs
      entered.str.1.length < cbSize ∧ ¬ Parse.Fills shellMaxArgs entered.str.1 ∧
      ∀ first ∈ argv.head?,
        (∀ c ∈ handlerOf table first,
          argv.length > c.maxargs ∨ toSigned 8 returned = cmdRetUsage →
            ∀ text ∈ usageTexts c, text.length < cbSize) ∧
        (handlerOf table first = none →
          s.result ≠ cmdRetUsage ∧ (unknownText first).length < cbSize)

instance decidableSound (table : List Command) (s : MainLoop) :
    ∀ entry, Decidable (Sound table s entry)
  | .interrupt => isTrue trivial
  | .line _ _ => inferInstanceAs (Decidable (_ ∧ _ ∧ ∀ first ∈ List.head? _, _ ∧ _))

/-! ## Lines of a session -/

/-- A buffer that holds a line, its terminator and what lies behind. -/
def Entered.ofBuffer (buf : ℕ → BitVec 8) (str : ShellString)
    (chars : (List.range str.1.length).map buf = str.1) (stop : buf str.1.length = 0) :
    Entered where
  buf := buf
  str := str
  has := exists_behind str.2 chars stop

/-- A line in an otherwise empty buffer. -/
def Entered.ofString (str : ShellString) : Entered :=
  .ofBuffer (fun i => str.1.getD i 0) str
    (map_range_eq rfl fun _ h => List.getD_eq_getElem _ _ h) (List.getD_eq_default _ _ le_rfl)

/-- The text as a line. -/
def Text.str (t : Text) : ShellString := ⟨t.chars, t.isString⟩

namespace Simulates

variable {s : Cread} {e : Editor}

theorem map_buf_finish (sim : Simulates s e) :
    (List.range e.text.chars.length).map (s.puts [0x0D, 0x0A]).finish.buf = e.text.chars := by
  rw [← sim.line_eq, length_line]
  exact map_buf_terminated s

theorem finish_stop (sim : Simulates s e) :
    (s.puts [0x0D, 0x0A]).finish.buf e.text.chars.length = 0 := by
  rw [← sim.eol_eq]
  exact Function.update_self _ _ _

/-- What `cread_line` leaves when Return is pressed. -/
def entered (sim : Simulates s e) : Entered :=
  .ofBuffer (s.puts [0x0D, 0x0A]).finish.buf e.text.str sim.map_buf_finish sim.finish_stop

end Simulates

/-! ## The loop does what it is written to do -/

section Iteration

variable {env : ShellEnv} {table : List Command} {s : MainLoop} {entered : Entered} {returned : ℤ}

/-- The arguments are the words. -/
theorem args_parseLine (entered : Entered) (argv : ℕ → Option ℕ) :
    (parseLine entered.buf argv).args = (words isblank entered.str.1).take shellMaxArgs := by
  have args := Tokens.args_scan (le_refl shellMaxArgs) (A := blankSeparated) entered.has
    entered.str.2.nonzero argv
  rw [parseLine_eq]
  exact args

/-- The first argument. -/
theorem arg_zero {p : Parse} {first : List (BitVec 8)} {rest : List (List (BitVec 8))}
    (args_eq : p.args = first :: rest) : p.arg 0 = first := by
  rw [Parse.args] at args_eq
  cases count : p.nargs with
  | zero =>
      rw [count] at args_eq
      exact absurd args_eq (List.cons_ne_nil first rest).symm
  | succ n =>
      rw [count, List.range_succ_eq_map, List.map_cons] at args_eq
      exact (List.cons.inj args_eq).1

theorem events_parseLine (env : ShellEnv) (notFills : ¬ Parse.Fills shellMaxArgs entered.str.1)
    (argv : ℕ → Option ℕ) :
    (parseLine entered.buf argv).events env =
      if Parse.Overflows shellMaxArgs entered.str.1 then [.printed tooManyText] else [] := by
  have parsed := parseLine_parsed entered.has entered.str.2.nonzero argv
  have short : shellPrintf env tooManyText = tooManyText := shellPrintf_short env (by decide)
  rw [Parse.events, parsed.stray_eq, if_neg notFills, parsed.tooMany_eq, short]
  simp only [List.append_nil, List.map_nil, List.nil_append, Bool.false_or, decide_eq_true_eq]

/-- The usage branch, where its texts have room. -/
theorem usage_eq {c : Command} (short : ∀ text ∈ usageTexts c, text.length < cbSize) :
    usage env (some c) = (usageTexts c).map .printed :=
  List.map_congr_left fun text mem =>
    congrArg Event.printed (shellPrintf_short env (short text mem))

/-- Looking up a command with a handler. -/
theorem handlerOf_some {first : List (BitVec 8)} {c : Command}
    (found : handlerOf table first = some c) :
    shellFindCommand table first = some c ∧ c.cmd ≠ none := by
  have kept := Option.filter_eq_some_iff.mp found
  exact ⟨kept.1, by simpa using kept.2⟩

/-- A word without a handler: no command has its name, or one that has nothing to run. -/
theorem handlerOf_none {first : List (BitVec 8)} (found : handlerOf table first = none) :
    ∀ c, shellFindCommand table first = some c → c.cmd = none := by
  intro c named
  have dropped := Option.filter_eq_none_iff.mp found c named
  simpa using dropped

/-- A word with a handler. -/
theorem dispatch_run {p : Parse} {c : Command} (named : handlerOf table (p.arg 0) = some c)
    (short : p.nargs > c.maxargs ∨ toSigned 8 returned = cmdRetUsage →
      ∀ text ∈ usageTexts c, text.length < cbSize) (result : ℤ) :
    (dispatch env table p result returned).2 =
      if p.nargs > c.maxargs then (usageTexts c).map .printed
      else .ran c p.args ::
        if toSigned 8 returned = cmdRetUsage then (usageTexts c).map .printed else [] := by
  obtain ⟨found, runs⟩ := handlerOf_some named
  simp only [dispatch, found]
  rw [if_neg runs]
  by_cases many : p.nargs > c.maxargs
  · rw [if_pos many, if_pos many]
    exact usage_eq (short (Or.inl many))
  · rw [if_neg many, if_neg many, List.singleton_append]
    by_cases asks : toSigned 8 returned = cmdRetUsage
    · rw [if_pos asks, if_pos asks, usage_eq (short (Or.inr asks))]
    · rw [if_neg asks, if_neg asks]

/-- A word without a handler, `result` being no request for the usage text. -/
theorem dispatch_unknown {p : Parse} {result : ℤ} (unnamed : handlerOf table (p.arg 0) = none)
    (quiet : result ≠ cmdRetUsage) (short : (unknownText (p.arg 0)).length < cbSize) :
    (dispatch env table p result returned).2 = [.printed (unknownText (p.arg 0))] := by
  have nothing := handlerOf_none unnamed
  simp only [dispatch, shellPrintf_short env short]
  cases found : shellFindCommand table (p.arg 0) with
  | none => exact congrArg _ (if_neg quiet)
  | some c =>
      simp only [if_pos (nothing c found)]
      exact congrArg _ (if_neg quiet)

/-- The loop does with a line what it is written to do. -/
theorem iteration_line (sound : Sound table s (.line entered returned)) :
    (iteration env table s (.line entered returned)).2 =
      dispatched table (.line entered returned) := by
  obtain ⟨short, notFills, texts⟩ := sound
  have parsed := parseLine_parsed entered.has entered.str.2.nonzero s.argv
  have args_eq := args_parseLine entered s.argv
  have events_eq := events_parseLine env notFills s.argv
  have nargs_eq := parsed.nargs_eq
  have len_eq : toSigned 8 entered.str.1.length = entered.str.1.length :=
    toSigned_eq_self ⟨by omega, by unfold cbSize at short; omega⟩
  rw [Nat.zero_add] at nargs_eq
  simp only [iteration, dispatched, len_eq]
  by_cases empty : entered.str.1 = []
  · have notPositive : ¬ ((0 : ℕ) : ℤ) > 0 := lt_irrefl _
    have notInterrupt : ¬ ((0 : ℕ) : ℤ) = -1 := by decide
    rw [empty, List.length_nil, if_neg notPositive, if_neg notInterrupt]
    rfl
  have positive : (entered.str.1.length : ℤ) > 0 := by
    exact_mod_cast List.length_pos_iff.mpr empty
  rw [if_pos positive, ← events_eq]
  generalize parseLine entered.buf s.argv = p at args_eq nargs_eq
  generalize (words isblank entered.str.1).take shellMaxArgs = taken at args_eq nargs_eq texts
  cases taken with
  | nil =>
      have none_ : p.nargs = 0 := nargs_eq
      rw [if_pos none_, List.append_nil]
  | cons first rest =>
      have some_ : ¬ p.nargs = 0 := nargs_eq ▸ Nat.succ_ne_zero rest.length
      have first_eq : p.arg 0 = first := arg_zero args_eq
      rw [if_neg some_]
      refine congrArg (p.events env ++ ·) ?_
      obtain ⟨asked, unknown⟩ := texts first rfl
      cases named : handlerOf table first with
      | some c =>
          have short := asked c named
          rw [← nargs_eq] at short
          simp only [named, ← nargs_eq]
          rw [← first_eq] at named
          rw [dispatch_run named short, args_eq]
      | none =>
          obtain ⟨quiet, short⟩ := unknown named
          simp only [named]
          rw [← first_eq] at named short
          rw [dispatch_unknown named quiet short, first_eq]

theorem iteration_eq_dispatched {entry : Entry} (sound : Sound table s entry) :
    s.done env table entry = dispatched table entry := by
  cases entry with
  | line entered returned => exact iteration_line sound
  | interrupt =>
      have short : interruptText.length < cbSize := by decide
      exact congrArg (fun text => [Event.printed text]) (shellPrintf_short env short)

end Iteration

/-- What the loop is written to do is defined. -/
theorem isDefined_of_dispatched (table : List Command) (entry : Entry) :
    ∀ event ∈ dispatched table entry, event.isDefined := by
  have texts (c : Command) : ∀ event ∈ (usageTexts c).map Event.printed, event.isDefined := by
    intro event mem
    obtain ⟨text, -, rfl⟩ := List.mem_map.mp mem
    rfl
  cases entry with
  | interrupt =>
      intro event mem
      rw [List.mem_singleton.mp mem]
      rfl
  | line entered returned =>
      simp only [dispatched, List.forall_mem_append]
      constructor
      · split_ifs
        · exact List.forall_mem_singleton.mpr rfl
        · exact List.forall_mem_nil _
      · cases (words isblank entered.str.1).take shellMaxArgs with
        | nil => exact List.forall_mem_nil _
        | cons first rest =>
            cases named : handlerOf table first with
            | none =>
                simp only [named]
                exact List.forall_mem_singleton.mpr rfl
            | some c =>
                simp only [named]
                split_ifs
                · exact texts c
                · exact List.forall_mem_cons.mpr ⟨rfl, texts c⟩
                · exact List.forall_mem_singleton.mpr rfl

/-- **Command dispatch.**  Whatever earlier commands have returned, a run of lines each of
which is sound does with each what the loop is written to do, and nothing undefined. -/
theorem shell_main_loop_dispatches (env : ShellEnv) {table : List Command} {s : MainLoop}
    {entries : List Entry} (sound : Guarded (Sound table) (MainLoop.next env table) s entries) :
    let events := outputs (MainLoop.next env table) (MainLoop.done env table) s entries
    events = entries.map (dispatched table) ∧ ∀ done ∈ events, ∀ event ∈ done, event.isDefined := by
  have meets (s : MainLoop) (entry : Entry) (sound : Sound table s entry) :
      s.done env table entry = dispatched table entry := iteration_eq_dispatched sound
  have events_eq := outputs_of_guarded meets sound
  refine ⟨events_eq, ?_⟩
  intro done mem
  rw [events_eq] at mem
  obtain ⟨entry, -, rfl⟩ := List.mem_map.mp mem
  exact isDefined_of_dispatched table entry

/-- `__fsym_help`, its handler at some address. -/
def fsymHelp : Command where
  name := ascii "help"
  maxargs := 8
  cmd := some 0
  usage := some (ascii "print command description/usage")
  help := some (ascii ("\r\n\t- print brief description of all commands\r\nhelp <command>\r\n" ++
    "\t- print detailed usage of 'command'\r\n"))

/-- A line, and a handler that returns `CMD_RET_SUCCESS` if one is run. -/
def enter (text : String) (isString : IsString (ascii text)) : Entry :=
  .line (.ofString ⟨ascii text, isString⟩) 0

/-- `help`, `^C`, a word that is no command, and `help` with two words. -/
def helpSession : List Entry :=
  [enter "help" (by decide +kernel), .interrupt, enter " ?" (by decide +kernel),
    enter "help  help x" (by decide +kernel)]

theorem shell_main_loop_dispatches_help :
    Guarded (Sound [fsymHelp]) (MainLoop.next .plain [fsymHelp]) ⟨fun _ => none, 0⟩ helpSession ∧
      outputs (MainLoop.next .plain [fsymHelp]) (MainLoop.done .plain [fsymHelp])
        ⟨fun _ => none, 0⟩ helpSession = helpSession.map (dispatched [fsymHelp]) := by
  have sound : Guarded (Sound [fsymHelp]) (MainLoop.next .plain [fsymHelp]) ⟨fun _ => none, 0⟩
      helpSession := by decide +kernel
  exact ⟨sound, (shell_main_loop_dispatches .plain sound).1⟩

/-- `help` and eight words are too many for `help`, which runs all the same, on seven. -/
theorem not_shell_main_loop_dispatches :
    ¬ ∀ (env : ShellEnv) (table : List Command) (s : MainLoop) (entries : List Entry),
      Guarded (fun s entry => ServedWhole table entry (s.done env table entry))
        (MainLoop.next env table) s entries := by
  intro whole
  have nine := (whole .plain [fsymHelp] ⟨fun _ => none, 0⟩
    [enter "help a b c d e f g h" (by decide +kernel)]).1
  revert nine
  decide +kernel

end CannonCar.Shell
