import CannonCar.Shell.Editor

/-!
# Keys

What is pressed at a prompt, as against the bytes it sends: a printable character, a
control character, an arrow or Home, or Return.  But for Return, each ends in the switch of
`cread_line`, whatever number of bytes it takes.

## What is load-bearing

An `EditKey` carries what it is pressed with, so that a sequence of keys is a sequence of bytes with
boundaries.  What a user does is a matter of keys; the code sees bytes, and an arrow
is three of them.  Between two keys no escape sequence is open, which is what `press_eq`
starts from and leaves behind.

Bytes that are neither printable nor control characters are no keys.
-/

namespace CannonCar.Shell

open Cread Trajectory

/-- The printable characters. -/
def Printable (c : BitVec 8) : Prop := 0x20 ≤ c ∧ c ≤ 0x7E

instance (c : BitVec 8) : Decidable (Printable c) := inferInstanceAs (Decidable (_ ∧ _))

/-- The bytes that are keys by themselves. -/
def IsControl (c : BitVec 8) : Prop :=
  caseOf c ≠ .escape ∧ caseOf c ≠ .tab ∧ caseOf c ≠ .other

instance (c : BitVec 8) : Decidable (IsControl c) := inferInstanceAs (Decidable (_ ∧ _))

/-- What is pressed: a printable character, a control character, an arrow or Home, or
Return. -/
inductive EditKey
  | char (c : BitVec 8) (printable : Printable c)
  | control (c : BitVec 8) (control : IsControl c)
  | sequence (c key : BitVec 8) (known : escKey c = some key)
  | enter (c : BitVec 8) (newline : c = 0x0A ∨ c = 0x0D)

namespace EditKey

/-- The bytes of a key. -/
def bytes : EditKey → List (BitVec 8)
  | char c _ => [c]
  | control c _ => [c]
  | sequence c _ _ => [0x1B, 0x5B, c]
  | enter c _ => [c]

/-- The byte the switch sees. -/
def key : EditKey → BitVec 8
  | char c _ => c
  | control c _ => c
  | sequence _ key _ => key
  | enter c _ => c

/-- A key pressed in a session. -/
def press (env : ShellEnv) (s : Cread) (k : EditKey) : Cread := run (sessionByte env) s k.bytes

end EditKey

theorem caseOf_printable :
    ∀ c : BitVec 8, Printable c → caseOf c = .other ∧ c ≠ 0 ∧ ¬ (c = 0x0A ∨ c = 0x0D) := by
  decide +kernel

theorem caseOf_newline : ∀ c : BitVec 8, c = 0x0A ∨ c = 0x0D → caseOf c = .other := by
  rintro c (rfl | rfl) <;> rfl

theorem not_newline_of_control : ∀ c : BitVec 8, IsControl c → c ≠ 0 ∧ ¬ (c = 0x0A ∨ c = 0x0D) := by
  decide +kernel

/-- A byte outside an escape sequence goes to the switch. -/
theorem sessionByte_eq_switch (env : ShellEnv) {s : Cread} (idle : s.esc = []) {c : BitVec 8}
    (nonzero : c ≠ 0) (typed : ¬ (c = 0x0A ∨ c = 0x0D)) :
    s.sessionByte env c = resume (Cread.switch env s c) := by
  have single : ¬ s.esc.length = 1 := by
    rw [idle]
    exact zero_ne_one
  rw [sessionByte, creadByte, if_neg nonzero, if_neg typed, if_neg single,
    if_neg (not_not.mpr idle)]

/-- Neither NUL nor a newline ends an escape sequence. -/
theorem ends_sequence {c key : BitVec 8} (known : escKey c = some key) :
    c ≠ 0 ∧ ¬ (c = 0x0A ∨ c = 0x0D) := by
  refine ⟨?_, ?_⟩
  · rintro rfl
    exact Option.some_ne_none key known.symm
  · rintro (rfl | rfl)
    · exact Option.some_ne_none key known.symm
    · exact Option.some_ne_none key known.symm

/-- The last byte of an escape sequence goes to the switch as the key it stands for. -/
theorem sessionByte_eq_escKey (env : ShellEnv) {s : Cread} (begun : s.esc = [0x1B, 0x5B])
    {c key : BitVec 8} (known : escKey c = some key) :
    s.sessionByte env c = resume (Cread.switch env { s with esc := [] } key) := by
  obtain ⟨nonzero, typed⟩ := ends_sequence known
  have double : ¬ s.esc.length = 1 := by
    rw [begun]
    exact Nat.succ_ne_self 1
  have some_ : s.esc ≠ [] := by
    rw [begun]
    exact List.cons_ne_nil _ _
  rw [sessionByte, creadByte, if_neg nonzero, if_neg typed, if_neg double, if_pos some_, known]

theorem press_sequence (env : ShellEnv) {s : Cread} (idle : s.esc = []) {c key : BitVec 8}
    (known : escKey c = some key) :
    (EditKey.sequence c key known).press env s = resume (Cread.switch env s key) := by
  have esc : s.sessionByte env 0x1B = { s with esc := [0x1B] } := by
    rw [sessionByte_eq_switch env idle (by decide) (by decide)]
    exact congrArg (fun s' : Cread => resume (s', .reading)) (if_pos idle)
  have bracket : ({ s with esc := [0x1B] } : Cread).sessionByte env 0x5B =
      { s with esc := [0x1B, 0x5B] } := rfl
  have back : ({ s with esc := [] } : Cread) = s := by rw [← idle]
  rw [EditKey.press, EditKey.bytes, run_cons, run_cons, run_cons, run_nil, esc, bracket,
    sessionByte_eq_escKey env rfl known]
  exact congrArg (fun s' => resume (Cread.switch env s' key)) back

/-- Each key but Return ends in the switch. -/
theorem press_eq (env : ShellEnv) {s : Cread} (idle : s.esc = []) (k : EditKey) :
    (∃ c, (c = 0x0A ∨ c = 0x0D) ∧ k.key = c ∧ k.press env s = s.sessionByte env c) ∨
      k.press env s = resume (Cread.switch env s k.key) ∧ k.key ≠ 0 ∧
        caseOf k.key ≠ .escape ∧ caseOf k.key ≠ .tab ∧
          (caseOf k.key = .other → Printable k.key) := by
  cases k with
  | char c printable =>
      obtain ⟨other, nonzero, typed⟩ := caseOf_printable c printable
      refine Or.inr ⟨sessionByte_eq_switch env idle nonzero typed, nonzero, ?_, ?_,
        fun _ => printable⟩
      · exact fun escape => Case.noConfusion (other.symm.trans escape)
      · exact fun tab => Case.noConfusion (other.symm.trans tab)
  | control c control =>
      obtain ⟨nonzero, typed⟩ := not_newline_of_control c control
      exact Or.inr ⟨sessionByte_eq_switch env idle nonzero typed, nonzero, control.1, control.2.1,
        fun other => absurd other control.2.2⟩
  | sequence c key known =>
      obtain ⟨nonzero, noEscape, noTab, noChar⟩ := caseOf_escKey known
      exact Or.inr ⟨press_sequence env idle known, nonzero, noEscape, noTab,
        fun other => absurd other noChar⟩
  | enter c newline => exact Or.inl ⟨c, newline, rfl, rfl⟩

/-- Return ends the call whatever has been typed. -/
theorem sessionByte_newline (env : ShellEnv) (s : Cread) {c : BitVec 8}
    (newline : c = 0x0A ∨ c = 0x0D) :
    s.sessionByte env c = (s.puts [0x0D, 0x0A]).finish.readline := by
  have nonzero : c ≠ 0 := by
    rintro rfl
    exact absurd newline (by decide)
  rw [sessionByte, creadByte, if_neg nonzero, if_pos newline]
  rfl

end CannonCar.Shell
