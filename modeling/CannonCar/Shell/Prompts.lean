import CannonCar.Shell.Keys

/-!
# The history at the prompts

What the history keys should do at a prompt is said in terms of the lines entered so far:
up goes back over them, down forth, and between them and the prompt lies the empty line.
`cread_line` sets `hist_cur` back to `hist_add_idx` behind Return, and does not behind
`^C`: the prompt after a line abandoned goes on at the place where that line was left.

Any byte may come in between, and TAB may do anything to the line.

## What is load-bearing

**The reference is the list of lines entered.**  `stepBack` and `lineBack` say what the history keys
should show, in terms of that list alone and without a ring.  `Remembers` is the relation of the
ring to the list: it holds the latest nine.

**Places do not end with a line.**  `AtPlace` is where recalling stands within a prompt, and
`AtPrompts` goes over the prompts of a session; behind Return the place is back at the start and
behind `^C` it is not, which is what `AbandonsUnrecalled` excludes.

**Two conditions on the state before the byte.**  `EntersFitting` is about the length of a line that
is entered, `AbandonsUnrecalled` about the place of a line that is abandoned.
-/

namespace CannonCar.Shell

open Cread MachineInt RecallRing Trajectory

/-! ## What the keys should do -/

/-- `^P` and the up arrow. -/
def EditKey.IsUp (k : EditKey) : Prop := k.key = 0x10

/-- `^N` and the down arrow. -/
def EditKey.IsDown (k : EditKey) : Prop := k.key = 0x0E

instance (k : EditKey) : Decidable k.IsUp := inferInstanceAs (Decidable (_ = _))

/-- How far back over `m` lines a key leads: each down undoes an up. -/
def stepBack (m : ℕ) (place : ℕ) (k : EditKey) : ℕ :=
  if k.IsUp then min (place + 1) m else place - 1

/-- The line that many lines back. -/
def lineBack (entered : List (List (BitVec 8))) : ℕ → List (BitVec 8)
  | 0 => []
  | i + 1 => entered.getD i []

/-- The history keys go over the latest lines entered, `HIST_MAX - 1` of them at most, the
most recent one first. -/
structure HistoryWorks (env : ShellEnv) (entered : List (List (BitVec 8))) (s : Cread) : Prop where
  line_eq : ∀ ks : List EditKey, (∀ k ∈ ks, k.IsUp ∨ k.IsDown) →
    (run (fun s k => k.press env s) s ks).line =
      lineBack entered (run (stepBack (min entered.length 9)) 0 ks)
  beeps : ∀ ks : List EditKey, (∀ k ∈ ks, k.IsUp ∨ k.IsDown) → ∀ k : EditKey, k.IsUp →
    run (stepBack (min entered.length 9)) 0 ks = min entered.length 9 →
      (k.press env (run (fun s k => k.press env s) s ks)).beeps =
        (run (fun s k => k.press env s) s ks).beeps + 1

/-- The line Return would enter. -/
def Cread.lineEntered (s : Cread) : List (BitVec 8) := (s.store s.eolNum 0).cstr

/-- The lines that have been entered and are kept, the most recent first. -/
def nowEntered (env : ShellEnv) (entered : List (List (BitVec 8))) (s : Cread) (c : BitVec 8) :
    List (List (BitVec 8)) :=
  if (creadByte env s c).2 = .entered ∧ Kept s.lineEntered then s.lineEntered :: entered
  else entered

/-- `P` holds of the lines entered and the state at each new prompt. -/
def AtPrompts (env : ShellEnv) (P : List (List (BitVec 8)) → Cread → Prop) :
    List (List (BitVec 8)) → Cread → List (BitVec 8) → Prop
  | _, _, [] => True
  | entered, s, c :: bytes =>
      ((creadByte env s c).2 ≠ .reading →
        P (nowEntered env entered s c) (sessionByte env s c)) ∧
      AtPrompts env P (nowEntered env entered s c) (sessionByte env s c) bytes

/-- Lines entered have `SHELL_CB_SIZE` characters at most. -/
def EntersFitting (env : ShellEnv) (s : Cread) (c : BitVec 8) : Prop :=
  (creadByte env s c).2 = .entered → s.lineEntered.length ≤ cbSize

/-- `^C` is pressed while no line is recalled. -/
def AbandonsUnrecalled (env : ShellEnv) (s : Cread) (c : BitVec 8) : Prop :=
  (creadByte env s c).2 = .interrupted → s.hist.histCur = s.hist.histAddIdx ∨ s.hist.histCur < 0

instance (env : ShellEnv) (s : Cread) (c : BitVec 8) : Decidable (EntersFitting env s c) :=
  inferInstanceAs (Decidable (_ → _))

instance (env : ShellEnv) (s : Cread) (c : BitVec 8) : Decidable (AbandonsUnrecalled env s c) :=
  inferInstanceAs (Decidable (_ → _))

/-! ## The place of the history -/

/-- The statics are at the prompt's place. -/
theorem Hist.Represents.unrecalled_iff {h : Hist} {p : Recalled} (r : h.Represents p) :
    h.histCur = h.histAddIdx ∨ h.histCur < 0 ↔ p.place = 0 := by
  have self := slot_eq_self (M := h.histMax + 1) r.add_nonneg r.place_lt
  rw [Nat.cast_eq_zero] at self
  have le := p.place_le
  constructor
  · rintro (atAdd | negative)
    · have nonneg : 0 ≤ h.histCur := atAdd ▸ r.add_nonneg
      exact self.mp ((r.cur_slot nonneg).symm.trans atAdd)
    · rw [r.of_cur_neg negative] at le
      exact Nat.le_zero.mp le
  · intro newest
    rcases r.cur_eq with cur | ⟨cur, -⟩
    · exact Or.inl (cur.trans (self.mpr newest))
    · exact Or.inr (by omega)

/-- What the history holds of the lines entered. -/
structure Remembers (h : Hist) (entered : List (List (BitVec 8))) (p : Recalled) : Prop where
  hist : h.Represents p
  entries_eq : p.entries.map Subtype.val = entered.take 9
  nonempty : ∀ line ∈ entered, line ≠ []

namespace Remembers

variable {h : Hist} {entered : List (List (BitVec 8))} {p : Recalled}

theorem length_eq (r : Remembers h entered p) : p.entries.length = min entered.length 9 := by
  rw [← List.length_map (f := Subtype.val), r.entries_eq, List.length_take, Nat.min_comm]

/-- A move to another place. -/
theorem moved {h' : Hist} {q : Recalled} (r : Remembers h entered p) (hist : h'.Represents q)
    (entries : q.entries = p.entries) : Remembers h' entered q :=
  ⟨hist, by rw [entries]; exact r.entries_eq, r.nonempty⟩

/-- The line at the place is one that has been entered. -/
theorem line_eq (r : Remembers h entered p) : p.line.1 = lineBack entered p.place := by
  unfold Recalled.line Past.shown
  cases place : p.place with
  | zero => rfl
  | succ i =>
      have inside : i < p.entries.length := by
        have le := p.place_le
        omega
      have taken : i < (p.entries.map Subtype.val).length := by rwa [List.length_map]
      have entry : p.entries[i].1 = (p.entries.map Subtype.val)[i] := (List.getElem_map _).symm
      show (p.entries[i]?.getD ShellString.empty).1 = entered.getD i []
      rw [List.getElem?_eq_getElem inside, Option.getD_some, entry,
        ← List.getD_eq_getElem _ [] taken, r.entries_eq, List.getD_eq_getElem?_getD,
        List.getElem?_take_of_lt, List.getD_eq_getElem?_getD]
      have length := r.length_eq
      omega

/-- A place is at a line that is not empty. -/
theorem line_ne_nil (r : Remembers h entered p) (some_ : p.place ≠ 0) : p.line.1 ≠ [] := by
  obtain ⟨i, place⟩ := Nat.exists_eq_succ_of_ne_zero some_
  have inside : i < entered.length := by
    have le := p.place_le
    have length := r.length_eq
    omega
  rw [r.line_eq, place]
  show entered.getD i [] ≠ []
  rw [List.getD_eq_getElem _ _ inside]
  exact r.nonempty _ (List.getElem_mem inside)

end Remembers

/-! ## Walking over the history -/

/-- Between history keys: the line shown, and the place. -/
structure AtPlace (s : Cread) (line : List (BitVec 8)) (p : Recalled) : Prop where
  fits : s.Fits
  noEsc : s.esc = []
  line_eq : s.line = line
  hist : s.hist.Represents p

namespace AtPlace

variable (env : ShellEnv) {s : Cread} {line : List (BitVec 8)} {p : Recalled}

/-- An answer of the history: a line shown, or a beep. -/
theorem recallLine (at_ : AtPlace s line p) {hist : Hist} {q : Option Recalled}
    (represents : hist.Represents (q.getD p)) :
    AtPlace (s.recallLine env (hist, q.map fun q => q.line.1))
        ((q.map fun q => q.line.1).getD line) (q.getD p) ∧
      (s.recallLine env (hist, q.map fun q => q.line.1)).beeps =
        s.beeps + if q = none then 1 else 0 := by
  cases q with
  | none => exact ⟨⟨⟨at_.fits.num_le, at_.fits.eol_le⟩, rfl, at_.line_eq, represents⟩, rfl⟩
  | some q =>
      have b := becomes_recallLine env at_.fits hist q.line.2
      have fits : (s.recallLine env (hist, some q.line.1)).Fits := by
        refine ⟨?_, ?_⟩
        · rw [b.num_eq, b.eol_eq]
        · rw [b.eol_eq]
          exact q.line.2.length_le
      exact ⟨⟨fits, b.esc_eq, b.line_eq, b.hist_eq.symm ▸ represents⟩, b.beeps_eq⟩

/-- A history key ends in the switch. -/
theorem press_eq_switch (at_ : AtPlace s line p) (k : EditKey) {key : BitVec 8}
    (key_eq : k.key = key) (typed : ¬ (key = 0x0A ∨ key = 0x0D)) :
    k.press env s = resume (Cread.switch env s key) := by
  rcases press_eq env at_.noEsc k with ⟨c, newline, same, -⟩ | ⟨press, -⟩
  · exact absurd (key_eq.symm.trans same ▸ newline) typed
  · rw [press, key_eq]

theorem press_up (at_ : AtPlace s line p) {k : EditKey} (up : k.IsUp) :
    AtPlace (k.press env s) ((p.older.map fun q : Recalled => q.line.1).getD line)
        (p.older.getD p) ∧
      (k.press env s).beeps = s.beeps + if p.older = none then 1 else 0 := by
  have answer := at_.hist.histPrev
  have recalled := at_.recallLine env answer.1
  rw [← answer.2] at recalled
  rw [at_.press_eq_switch env k up (by decide), ← answer.2]
  exact recalled

theorem press_down (at_ : AtPlace s line p) {k : EditKey} (down : k.IsDown) :
    AtPlace (k.press env s) ((p.newer.map fun q : Recalled => q.line.1).getD line)
      (p.newer.getD p) := by
  have answer := at_.hist.histNext
  have recalled := (at_.recallLine env answer.1).1
  rw [← answer.2] at recalled
  rw [at_.press_eq_switch env k down (by decide), ← answer.2]
  exact recalled

/-- Where the line shown is the one at the place, a key keeps it so. -/
theorem step (at_ : AtPlace s p.line.1 p) {k : EditKey} (arrow : k.IsUp ∨ k.IsDown) :
    ∃ q : Recalled, AtPlace (k.press env s) q.line.1 q ∧ q.entries = p.entries ∧
      q.place = stepBack p.entries.length p.place k := by
  have shown (q : Option Recalled) :
      (q.map fun q => q.line.1).getD p.line.1 = (q.getD p).line.1 := by
    cases q <;> rfl
  by_cases up : k.IsUp
  · have next := (at_.press_up env up).1
    rw [shown] at next
    rw [stepBack, if_pos up, ← Past.place_older]
    exact ⟨_, next, Past.entries_older p, rfl⟩
  · have next := at_.press_down env (arrow.resolve_left up)
    rw [shown] at next
    rw [stepBack, if_neg up, ← Past.place_newer]
    exact ⟨_, next, Past.entries_newer p, rfl⟩

/-- So do any number of keys. -/
theorem run (at_ : AtPlace s p.line.1 p) {ks : List EditKey}
    (arrows : ∀ k ∈ ks, k.IsUp ∨ k.IsDown) :
    ∃ q : Recalled, AtPlace (Trajectory.run (fun s k => k.press env s) s ks) q.line.1 q ∧
      q.entries = p.entries ∧
      q.place = Trajectory.run (stepBack p.entries.length) p.place ks := by
  induction ks generalizing s p with
  | nil => exact ⟨p, at_, rfl, rfl⟩
  | cons k ks ih =>
      obtain ⟨q, next, entries, place⟩ := at_.step env (arrows k List.mem_cons_self)
      obtain ⟨r, walked, entries', place'⟩ := ih next fun k' mem =>
        arrows k' (List.mem_cons_of_mem k mem)
      rw [entries, place] at place'
      exact ⟨r, walked, entries'.trans entries, place'⟩

end AtPlace

/-! ## One prompt -/

/-- A prompt from a place. -/
theorem atPlace_readline {s : Cread} {p : Recalled} (hist : s.hist.Represents p) :
    AtPlace s.readline [] p :=
  ⟨⟨le_rfl, Nat.zero_le _⟩, rfl, rfl, hist⟩

/-- `^P`. -/
def upKey : EditKey := .control 0x10 (by decide)

/-- `^N`. -/
def downKey : EditKey := .control 0x0E (by decide)

section HistoryKeys

variable {env : ShellEnv} {s : Cread} {entered : List (List (BitVec 8))} {p : Recalled}

/-- Up and down again lead back to the place, where a line is. -/
theorem HistoryWorks.newest_of_older (works : HistoryWorks env entered s.readline)
    (r : Remembers s.hist entered p) (more : p.place < p.entries.length) : p.place = 0 := by
  by_contra later
  have length := r.length_eq
  have lines := works.line_eq [upKey, downKey] (by
    intro k mem
    rcases List.mem_pair.mp mem with rfl | rfl
    · exact Or.inl rfl
    · exact Or.inr rfl)
  have walked := ((atPlace_readline r.hist).press_up env (k := upKey) rfl).1
  have place := Past.place_older p
  have entries := Past.entries_older p
  obtain ⟨q, older⟩ : ∃ q, p.older = some q := ⟨_, dif_pos more⟩
  rw [older] at walked place entries
  obtain ⟨q', back, entries', place'⟩ := walked.step env (k := downKey) (Or.inr rfl)
  have again : q'.place = p.place := by
    have down : q'.place = q.place - 1 := place'
    change q.place = _ at place
    omega
  have undone : run (stepBack (min entered.length 9)) 0 [upKey, downKey] = 0 := by
    show min (0 + 1) (min entered.length 9) - 1 = 0
    omega
  rw [undone] at lines
  exact (r.moved back.hist (entries'.trans entries)).line_ne_nil (again ▸ later)
    (back.line_eq.symm.trans lines)

/-- At the oldest line up beeps, and the line stays empty. -/
theorem HistoryWorks.newest_of_oldest (works : HistoryWorks env entered s.readline)
    (r : Remembers s.hist entered p) (oldest : p.older = none) : p.place = 0 := by
  by_contra later
  have length := r.length_eq
  have le := p.place_le
  have lines := works.line_eq [upKey] (by
    intro k mem
    rw [List.mem_singleton.mp mem]
    exact Or.inl rfl)
  have walked := ((atPlace_readline r.hist).press_up env (k := upKey) rfl).1
  rw [oldest] at walked
  have some_ : 0 < entered.length := by omega
  have one : run (stepBack (min entered.length 9)) 0 [upKey] = 1 := by
    show min (0 + 1) (min entered.length 9) = 1
    omega
  rw [one, lineBack, List.getD_eq_getElem _ _ some_] at lines
  exact r.nonempty _ (List.getElem_mem some_) (lines.symm.trans walked.line_eq)

/-- From the empty line the keys walk over the lines entered. -/
theorem Remembers.historyWorks (r : Remembers s.hist entered p) (newest : p.place = 0) :
    HistoryWorks env entered s.readline := by
  have start := atPlace_readline r.hist
  have empty : p.line.1 = [] := by
    rw [r.line_eq, newest]
    rfl
  rw [← empty] at start
  have length := r.length_eq
  refine ⟨fun ks arrows => ?_, fun ks arrows k up last => ?_⟩
  · obtain ⟨q, walked, entries, place⟩ := start.run env arrows
    rw [walked.line_eq, (r.moved walked.hist entries).line_eq, place, newest, length]
  · obtain ⟨q, walked, entries, place⟩ := start.run env arrows
    have oldest : q.older = none := by
      rw [Past.older_eq_none, place, newest, length, last, entries, length]
    rw [(walked.press_up env up).2, if_pos oldest]

end HistoryKeys

/-- The history keys do what they should exactly if the prompt starts at the empty line. -/
theorem historyWorks_iff (env : ShellEnv) {s : Cread} {entered : List (List (BitVec 8))}
    {p : Recalled} (r : Remembers s.hist entered p) :
    HistoryWorks env entered s.readline ↔ p.place = 0 := by
  refine ⟨fun works => ?_, r.historyWorks⟩
  by_cases more : p.place < p.entries.length
  · exact works.newest_of_older r more
  · exact works.newest_of_oldest r (dif_neg more)

/-! ## What a byte does to the history -/

section Untouched

variable (env : ShellEnv) (s : Cread)

theorem creadAddChar_hist (c : BitVec 8) (insert : Bool) :
    (s.creadAddChar c insert).hist = s.hist := by
  simp only [creadAddChar]
  split_ifs <;> rfl

theorem creadAddStr_hist (str : List (BitVec 8)) : (s.creadAddStr str).hist = s.hist := by
  unfold creadAddStr
  induction str generalizing s with
  | nil => rfl
  | cons c str ih => exact (ih _).trans (creadAddChar_hist s c s.insert)

theorem deleteChar_hist : s.deleteChar.hist = s.hist := by
  simp only [deleteChar]
  split_ifs <;> rfl

theorem backspace_hist : s.backspace.hist = s.hist := by
  unfold backspace
  split_ifs <;> rfl

theorem eraseToEol_hist : (s.eraseToEol env).hist = s.hist := by
  unfold eraseToEol
  split_ifs <;> rfl

theorem refreshToEol_hist : s.refreshToEol.hist = s.hist := by
  unfold refreshToEol
  split_ifs <;> rfl

theorem complete_hist : (s.complete env).hist = s.hist := by
  simp only [complete]
  split_ifs <;> rfl

theorem recallLine_hist (answer : Hist × Option (List (BitVec 8))) :
    (s.recallLine env answer).hist = answer.1 := by
  obtain ⟨hist, _ | hline⟩ := answer
  · rfl
  · exact (refreshToEol_hist _).trans (eraseToEol_hist env _)

/-- What a turn of the loop has done to the history, short of Return. -/
inductive Turn (h : Hist) : Hist → Outcome → Prop
  | untouched : Turn h h .reading
  | prev : Turn h h.histPrev.1 .reading
  | next : Turn h h.histNext.1 .reading
  | abandoned : Turn h h .interrupted

theorem turn_of_untouched {s' : Cread} (same : s'.hist = s.hist) : Turn s.hist s'.hist .reading :=
  same ▸ Turn.untouched

/-- Of the keys, only those of the history touch it. -/
theorem turn_switch (key : BitVec 8) :
    Turn s.hist (Cread.switch env s key).1.hist (Cread.switch env s key).2 := by
  unfold Cread.switch
  cases caseOf key with
  | escape =>
      apply turn_of_untouched
      split_ifs <;> rfl
  | ctlA => exact .untouched
  | ctlC => exact .abandoned
  | ctlF =>
      apply turn_of_untouched
      split_ifs <;> rfl
  | ctlB =>
      apply turn_of_untouched
      split_ifs <;> rfl
  | ctlD => exact turn_of_untouched s (deleteChar_hist s)
  | ctlK => exact turn_of_untouched s (eraseToEol_hist env s)
  | ctlE => exact turn_of_untouched s (refreshToEol_hist s)
  | ctlO => exact .untouched
  | ctlU => exact turn_of_untouched s (eraseToEol_hist env _)
  | del => exact turn_of_untouched s (backspace_hist s)
  | ctlP => exact recallLine_hist env s s.hist.histPrev ▸ .prev
  | ctlN => exact recallLine_hist env s s.hist.histNext ▸ .next
  | tab => exact turn_of_untouched s (complete_hist env s)
  | other => exact turn_of_untouched s (creadAddChar_hist s key s.insert)

/-- A byte that is not Return. -/
theorem turn_creadByte (c : BitVec 8) :
    Turn s.hist (creadByte env s c).1.hist (creadByte env s c).2 ∨
      (creadByte env s c).2 = .entered ∧
        (creadByte env s c).1.hist = (s.puts [0x0D, 0x0A]).finish.hist := by
  unfold creadByte
  split_ifs with null newline single open_ begun
  · exact Or.inl .untouched
  · exact Or.inr ⟨rfl, rfl⟩
  · exact Or.inl .untouched
  · exact Or.inl (turn_of_untouched s (creadAddStr_hist s s.esc))
  · cases escKey c with
    | none => exact Or.inl (turn_of_untouched s (creadAddStr_hist s (s.esc ++ [c])))
    | some key => exact Or.inl (turn_switch env { s with esc := [] } key)
  · exact Or.inl (turn_switch env s c)

end Untouched

/-- The first character of the buffer decides what is kept, whatever follows it. -/
theorem kept_cstr_iff (s : Cread) : s.buf 0 ≠ 0 ∧ s.buf 0 ≠ 0x21 ↔ Kept s.cstr := by
  have first : s.cstr = if s.buf 0 ≠ 0 then
      s.buf 0 :: ((List.range cbSize).map fun i => s.buf (i + 1)).takeWhile (· ≠ 0) else [] := by
    rw [cstr, List.range_succ_eq_map, List.map_cons, List.map_map, List.takeWhile_cons]
    simp only [decide_eq_true_eq]
    rfl
  rw [first]
  split_ifs with nonzero
  · rw [Kept, List.head?_cons]
    exact and_congr (iff_of_true nonzero (List.cons_ne_nil _ _))
      (Option.some.injEq ..).symm.to_iff.not
  · exact iff_of_false (fun kept => nonzero kept.1) (fun kept => kept.1 rfl)

/-- A line entered is a string. -/
theorem isString_lineEntered {s : Cread} (fits : s.lineEntered.length ≤ cbSize) :
    IsString s.lineEntered where
  length_le := fits
  nonzero c mem := by
    unfold lineEntered cstr at mem
    have kept := List.mem_takeWhile_imp mem
    exact of_decide_eq_true kept

/-- Return adds the line if it is one that is kept, and goes back to the empty line. -/
theorem remembers_finish {s : Cread} {entered : List (List (BitVec 8))} {p : Recalled}
    (r : Remembers s.hist entered p) (fits : s.lineEntered.length ≤ cbSize)
    (chs : List (BitVec 8)) :
    ∃ q : Recalled, q.place = 0 ∧ Remembers (s.puts chs).finish.hist
      (if Kept s.lineEntered then s.lineEntered :: entered else entered) q := by
  have finish : (s.puts chs).finish.hist =
      let hist := if Kept s.lineEntered then s.hist.creadAddToHist s.lineEntered else s.hist
      { hist with histCur := hist.histAddIdx } := by
    rw [finish_hist]
    simp only [kept_cstr_iff]
    rfl
  rw [finish]
  split_ifs with kept
  · refine ⟨_, rfl, r.hist.creadAddToHist ⟨_, isString_lineEntered fits⟩, ?_, ?_⟩
    · show ((_ :: p.entries).take 9).map Subtype.val = (s.lineEntered :: entered).take 9
      rw [List.map_take, List.map_cons, r.entries_eq, List.take_succ_cons, List.take_succ_cons,
        List.take_take]
      rfl
    · intro line mem
      rcases List.mem_cons.mp mem with rfl | mem
      · exact kept.1
      · exact r.nonempty line mem
  · exact ⟨_, rfl, r.hist.rewind, r.entries_eq, r.nonempty⟩

/-- One byte of a session. -/
theorem remembers_creadByte (env : ShellEnv) {s : Cread} {entered : List (List (BitVec 8))}
    {p : Recalled} (r : Remembers s.hist entered p) {c : BitVec 8} (fits : EntersFitting env s c) :
    ∃ q : Recalled, Remembers (creadByte env s c).1.hist (nowEntered env entered s c) q ∧
      ((creadByte env s c).2 ≠ .reading → (q.place = 0 ↔ AbandonsUnrecalled env s c)) := by
  unfold AbandonsUnrecalled nowEntered
  rcases turn_creadByte env s c with turn | ⟨outcome, hist⟩
  · generalize (creadByte env s c).1.hist = h at turn
    generalize (creadByte env s c).2 = outcome at turn
    have same (h' : Outcome) (other : h' ≠ .entered) :
        (if h' = .entered ∧ Kept s.lineEntered then s.lineEntered :: entered else entered) =
          entered := if_neg fun both => other both.1
    cases turn with
    | untouched =>
        rw [same _ (by decide)]
        exact ⟨p, r, fun prompt => absurd rfl prompt⟩
    | prev =>
        rw [same _ (by decide)]
        exact ⟨_, r.moved r.hist.histPrev.1 (Past.entries_older p),
          fun prompt => absurd rfl prompt⟩
    | next =>
        rw [same _ (by decide)]
        exact ⟨_, r.moved r.hist.histNext.1 (Past.entries_newer p),
          fun prompt => absurd rfl prompt⟩
    | abandoned =>
        rw [same _ (by decide)]
        exact ⟨p, r, fun _ => r.hist.unrecalled_iff.symm.trans (imp_iff_right rfl).symm⟩
  · obtain ⟨q, newest, remembers⟩ := remembers_finish r (fits outcome) [0x0D, 0x0A]
    rw [hist, outcome]
    simp only [true_and]
    exact ⟨q, remembers, fun _ => iff_of_true newest fun abandoned => Outcome.noConfusion abandoned⟩

theorem resume_hist (turn : Cread × Outcome) : (resume turn).hist = turn.1.hist := by
  obtain ⟨s, outcome⟩ := turn
  cases outcome <;> rfl

theorem resume_prompt (turn : Cread × Outcome) (prompt : turn.2 ≠ .reading) :
    resume turn = turn.1.readline := by
  obtain ⟨s, outcome⟩ := turn
  cases outcome with
  | reading => exact absurd rfl prompt
  | entered => rfl
  | interrupted => rfl

/-- From any state of the history. -/
theorem atPrompts_iff (env : ShellEnv) {bytes : List (BitVec 8)} {s : Cread}
    {entered : List (List (BitVec 8))} {p : Recalled} (r : Remembers s.hist entered p)
    (fits : Guarded (EntersFitting env) (sessionByte env) s bytes) :
    AtPrompts env (HistoryWorks env) entered s bytes ↔
      Guarded (AbandonsUnrecalled env) (sessionByte env) s bytes := by
  induction bytes generalizing s entered p with
  | nil => exact Iff.rfl
  | cons c bytes ih =>
      obtain ⟨q, remembers, prompt⟩ := remembers_creadByte env r fits.1
      have later : Remembers (sessionByte env s c).hist (nowEntered env entered s c) q := by
        rw [sessionByte, resume_hist]
        exact remembers
      rw [AtPrompts, Guarded, ih later fits.2]
      apply and_congr_left'
      by_cases reading : (creadByte env s c).2 = .reading
      · refine iff_of_true (fun prompt => absurd reading prompt) fun abandoned => ?_
        exact Outcome.noConfusion (reading.symm.trans abandoned)
      · rw [forall_prop_of_true reading, sessionByte, resume_prompt _ reading,
          historyWorks_iff env remembers]
        exact prompt reading

/-- Nothing has been entered yet. -/
theorem remembers_histInit : Remembers Hist.histInit [] Past.nothing :=
  ⟨Hist.represents_histInit, rfl, fun _ mem => absurd mem List.not_mem_nil⟩

/-- At every prompt of a session the history keys go over the lines entered, exactly if no
line is abandoned while another is recalled. -/
theorem history_works_iff (env : ShellEnv) (buf : ℕ → BitVec 8) (bytes : List (BitVec 8))
    (fits : Guarded (EntersFitting env) (sessionByte env) (start buf Hist.histInit) bytes) :
    HistoryWorks env [] (start buf Hist.histInit) ∧
        AtPrompts env (HistoryWorks env) [] (start buf Hist.histInit) bytes ↔
      Guarded (AbandonsUnrecalled env) (sessionByte env) (start buf Hist.histInit) bytes := by
  have first : HistoryWorks env [] (start buf Hist.histInit) :=
    (historyWorks_iff env (s := ⟨buf, 0, 0, true, [], Hist.histInit, [], [], 0⟩)
      remembers_histInit).mpr rfl
  rw [← atPrompts_iff env (s := start buf Hist.histInit) remembers_histInit fits]
  exact and_iff_right first

/-- `a` entered and given up at the prompt: the history works. -/
theorem history_works_iff_abandoned :
    HistoryWorks .plain [] (start (fun _ => 0) Hist.histInit) ∧
      AtPrompts .plain (HistoryWorks .plain) [] (start (fun _ => 0) Hist.histInit)
        [0x61, 0x0D, 0x62, 0x03] :=
  (history_works_iff .plain (fun _ => 0) [0x61, 0x0D, 0x62, 0x03] (by decide +kernel)).mpr
    (by decide +kernel)

/-- `a` entered, recalled and given up: at the next prompt up finds no line. -/
theorem not_history_works : ¬ ∀ (env : ShellEnv) (buf : ℕ → BitVec 8) (bytes : List (BitVec 8)),
    Guarded (EntersFitting env) (sessionByte env) (start buf Hist.histInit) bytes →
      HistoryWorks env [] (start buf Hist.histInit) ∧
        AtPrompts env (HistoryWorks env) [] (start buf Hist.histInit) bytes := by
  intro always
  have fits : Guarded (EntersFitting .plain) (sessionByte .plain)
      (start (fun _ => 0) Hist.histInit) [0x61, 0x0D, 0x10, 0x03] := by decide +kernel
  have works := (always .plain (fun _ => 0) [0x61, 0x0D, 0x10, 0x03] fits).2
  have unrecalled := (atPrompts_iff .plain remembers_histInit fits).mp works
  revert unrecalled
  decide +kernel

end CannonCar.Shell
