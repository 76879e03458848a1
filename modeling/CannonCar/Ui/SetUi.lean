import CannonCar.Foundation.Printf
import CannonCar.FlashUi

/-!
# The parameter editor

`Set_UI` of `work/UI/ui.c`, without its drawing: what one key does to the cursor, to
the edit mode and to the seven parameters, and which numbers the seven rows show.

The function keeps the cursor in three statics, `SetArrow` (the marked display row),
`Page` (how far the table is scrolled) and `Item` (the parameter being edited), each
moved and wrapped by its own rule; `SetUi.Ok` is the relation between them that every
key keeps.  The three lists the function has to keep in step — the labels `SS`, the
cases of the edit switch, the `sprintf` calls — are three definitions here (`ss`,
`editItem`, `shownNumbers`), and `values_editItem` is where they meet: editing item
`m` changes entry `m-1` of `Params.values` and no other.

## Modelling decisions

`SetArrow` runs over the display rows 2 to 7 and `Page` over 0 and 1; the comments of the
source name 2 to 6 and 0 to 6.  `SetUi.Ok` has the ranges the code keeps to.  All three
statics are `u8`, and a step below zero wraps to 255 before the test that catches it.

The parameters are counted from 1, as `Item` does, and their rows from 0.  `NumbersFit` asks of
every row that the conversion of its number is defined and that the text fits the four
characters its array has room for.
-/

namespace CannonCar

open MachineInt Printf

/-! ## The cursor -/

/-- The variables of `Set_UI` that live from one `OSMboxPend` to the next: three
statics and, for the length of a visit, two locals. -/
structure SetUi where
  setArrow : ℕ
  page : ℕ
  item : ℕ
  saveSetArrow : ℕ
  arrowState : ℕ
  deriving DecidableEq

/-- `SetOptionsNum`. -/
def setOptionsNum : ℕ := 7

namespace SetUi

/-- The statics as initialised, before the first visit. -/
def init : SetUi := ⟨2, 0, 1, 2, 0⟩

/-- A visit starts with fresh locals. -/
def enter (u : SetUi) : SetUi := { u with saveSetArrow := 2, arrowState := 0 }

/-- `Item--` with its wrap. -/
def itemUp (item : ℕ) : ℕ :=
  if (item + 255) % 256 < 1 then setOptionsNum else (item + 255) % 256

/-- `Item++` with its wrap. -/
def itemDown (item : ℕ) : ℕ :=
  if (item + 1) % 256 > setOptionsNum then 1 else (item + 1) % 256

/-- Key 1 outside the edit mode. -/
def up (u : SetUi) : SetUi :=
  if (u.setArrow + 255) % 256 < 2 then
    if u.page = 0 then { u with page := 1, setArrow := 7, item := itemUp u.item }
    else { u with page := (u.page + 255) % 256, setArrow := 2, item := itemUp u.item }
  else { u with setArrow := (u.setArrow + 255) % 256, item := itemUp u.item }

/-- Key 2 outside the edit mode. -/
def down (u : SetUi) : SetUi :=
  if (u.setArrow + 1) % 256 > 7 then
    if u.page = 1 then { u with page := 0, setArrow := 2, item := itemDown u.item }
    else { u with page := (u.page + 1) % 256, setArrow := 7, item := itemDown u.item }
  else { u with setArrow := (u.setArrow + 1) % 256, item := itemDown u.item }

/-- `switch(key)`, for a key that does not leave the page. -/
def pressed (key : ℕ) (u : SetUi) : SetUi :=
  if key = 1 then (if u.arrowState = 0 then u.up else u)
  else if key = 2 then (if u.arrowState = 0 then u.down else u)
  else if key = 3 then { u with arrowState := if u.arrowState = 0 then 1 else 0 }
  else if key = 4 then { u with arrowState := 0 }
  else u

/-- What the edit switch does to the flag: an item without a case ends the mode. -/
def checked (u : SetUi) : SetUi :=
  if u.arrowState ≠ 0 ∧ ¬ (1 ≤ u.item ∧ u.item ≤ setOptionsNum) then { u with arrowState := 0 }
  else u

/-- Key 4 outside the edit mode leaves the page. -/
def Leaves (key : ℕ) (u : SetUi) : Prop := key = 4 ∧ u.arrowState ≠ 1

instance (key : ℕ) (u : SetUi) : Decidable (u.Leaves key) := inferInstanceAs (Decidable (_ ∧ _))

/-- The marker is drawn and, outside the edit mode, its row remembered. -/
def marked (u : SetUi) : SetUi :=
  if u.arrowState = 0 then { u with saveSetArrow := u.setArrow } else u

/-- How the three statics belong together, and that the edit flag is a flag. -/
structure Ok (u : SetUi) : Prop where
  item_eq : u.item = u.page + u.setArrow - 1
  setArrow_ge : 2 ≤ u.setArrow
  setArrow_le : u.setArrow ≤ 7
  page_le : u.page ≤ 1
  arrowState_le : u.arrowState ≤ 1

theorem ok_init : init.Ok := ⟨rfl, by decide, by decide, by decide, by decide⟩

theorem Ok.item_mem {u : SetUi} (ok : u.Ok) : 1 ≤ u.item ∧ u.item ≤ 7 := by
  obtain ⟨item, ge, le, page, -⟩ := ok
  omega

/-- The rows on the panel are rows of the table. -/
theorem Ok.index {u : SetUi} (ok : u.Ok) {i : ℕ} (first : 2 ≤ i) (last : i ≤ 7) :
    u.page + i - 2 < 7 := by
  have := ok.page_le
  omega

theorem Ok.checked_eq {u : SetUi} (ok : u.Ok) : u.checked = u :=
  if_neg fun h => h.2 ok.item_mem

@[simp] theorem pressed_enter_zero (u : SetUi) : u.enter.pressed 0 = u.enter := rfl

theorem Ok.enter {u : SetUi} (ok : u.Ok) : u.enter.Ok :=
  ⟨ok.item_eq, ok.setArrow_ge, ok.setArrow_le, ok.page_le, Nat.zero_le 1⟩

theorem Ok.up {u : SetUi} (ok : u.Ok) : u.up.Ok := by
  obtain ⟨first, last⟩ := ok.item_mem
  obtain ⟨item, ge, le, page, state⟩ := ok
  have wrap : u.item = 1 ∧ itemUp u.item = 7 ∨ u.item ≠ 1 ∧ itemUp u.item = u.item - 1 := by
    unfold itemUp setOptionsNum
    split_ifs <;> omega
  unfold SetUi.up
  split_ifs <;> constructor <;> dsimp only <;> omega

theorem Ok.down {u : SetUi} (ok : u.Ok) : u.down.Ok := by
  obtain ⟨first, last⟩ := ok.item_mem
  obtain ⟨item, ge, le, page, state⟩ := ok
  have wrap : u.item = 7 ∧ itemDown u.item = 1 ∨ u.item ≠ 7 ∧ itemDown u.item = u.item + 1 := by
    unfold itemDown setOptionsNum
    split_ifs <;> omega
  unfold SetUi.down
  split_ifs <;> constructor <;> dsimp only <;> omega

theorem Ok.pressed {u : SetUi} (ok : u.Ok) (key : ℕ) : (u.pressed key).Ok := by
  obtain ⟨item, ge, le, page, state⟩ := id ok
  unfold SetUi.pressed
  split_ifs
  · exact ok.up
  · exact ok
  · exact ok.down
  · exact ok
  · exact ⟨item, ge, le, page, le_refl 1⟩
  · exact ⟨item, ge, le, page, Nat.zero_le 1⟩
  · exact ⟨item, ge, le, page, Nat.zero_le 1⟩
  · exact ok

@[simp] theorem saveSetArrow_pressed (u : SetUi) (key : ℕ) :
    (u.pressed key).saveSetArrow = u.saveSetArrow := by
  unfold SetUi.pressed up down
  split_ifs <;> rfl

/-- In the edit mode the cursor stays where it was marked. -/
theorem saved_pressed {u : SetUi} (saved : u.saveSetArrow = u.setArrow) {key : ℕ}
    (editing : (u.pressed key).arrowState ≠ 0) :
    (u.pressed key).saveSetArrow = (u.pressed key).setArrow := by
  unfold SetUi.pressed up down at *
  split_ifs at * <;> first | exact saved | exact absurd ‹_› editing

theorem Ok.marked {u : SetUi} (ok : u.Ok) : u.marked.Ok := by
  unfold SetUi.marked
  split_ifs
  · exact ⟨ok.item_eq, ok.setArrow_ge, ok.setArrow_le, ok.page_le, ok.arrowState_le⟩
  · exact ok

end SetUi

/-! ## The parameters -/

/-- The seven parameters, in the order of the table on the panel. -/
def Params.values (ps : Params) : List ℚ :=
  [ps.speedpid.p, ps.speedpid.i, ps.speedpid.d, ps.streepid.p, ps.streepid.i, ps.streepid.d,
    ps.speed]

variable (fm : FloatModel)

/-- `if(key == 1) g += 0.1; if(key == 2) g -= 0.1;`, the sum taken in `double`. -/
def stepGain (key : ℕ) (g : ℚ) : ℚ :=
  let g := if key = 1 then fm.rnd (fm.rndD (g + fm.rndD (1 / 10))) else g
  if key = 2 then fm.rnd (fm.rndD (g - fm.rndD (1 / 10))) else g

/-- The edit of a speed gain, with its wrap. -/
def editSpeedGain (key : ℕ) (g : ℚ) : ℚ :=
  if stepGain fm key g > fm.rndD (999 / 10) then 0 else stepGain fm key g

/-- The edit of a steering gain, whose wrap is commented out. -/
def editTurnGain (key : ℕ) (g : ℚ) : ℚ := stepGain fm key g

/-- `if(key == 1) speed +=1; if(key == 2) speed -= 1;`. -/
def stepSpeed (key : ℕ) (speed : ℤ) : ℤ :=
  let speed := if key = 1 then toSigned 32 (speed + 1) else speed
  if key = 2 then toSigned 32 (speed - 1) else speed

/-- The edit of `int speed`, with its wrap. -/
def editSpeed (key : ℕ) (speed : ℤ) : ℤ :=
  if stepSpeed key speed > 999 then 0 else stepSpeed key speed

/-- `switch(Item)` of the edit mode; other items leave the parameters alone. -/
def editItem (key item : ℕ) (ps : Params) : Params :=
  if item = 1 then
    { ps with speedpid := { ps.speedpid with p := editSpeedGain fm key ps.speedpid.p } }
  else if item = 2 then
    { ps with speedpid := { ps.speedpid with i := editSpeedGain fm key ps.speedpid.i } }
  else if item = 3 then
    { ps with speedpid := { ps.speedpid with d := editSpeedGain fm key ps.speedpid.d } }
  else if item = 4 then
    { ps with streepid := { ps.streepid with p := editTurnGain fm key ps.streepid.p } }
  else if item = 5 then
    { ps with streepid := { ps.streepid with i := editTurnGain fm key ps.streepid.i } }
  else if item = 6 then
    { ps with streepid := { ps.streepid with d := editTurnGain fm key ps.streepid.d } }
  else if item = 7 then { ps with speed := editSpeed key ps.speed }
  else ps

/-- What the edit of an item makes of its value: item `k+1` holds parameter `k`. -/
def editValue (key k : ℕ) (v : ℚ) : ℚ :=
  if k < 3 then editSpeedGain fm key v
  else if k < 6 then editTurnGain fm key v
  else editSpeed key v.num

/-- **The edit switch and the table agree.**  Editing an item replaces the parameter
of that row and leaves the other six alone. -/
theorem values_editItem (key : ℕ) {item : ℕ} (first : 1 ≤ item) (last : item ≤ 7)
    (ps : Params) :
    (editItem fm key item ps).values =
      ps.values.set (item - 1) (editValue fm key (item - 1) (ps.values.getD (item - 1) 0)) := by
  have cases : item = 1 ∨ item = 2 ∨ item = 3 ∨ item = 4 ∨ item = 5 ∨ item = 6 ∨ item = 7 := by
    omega
  rcases cases with rfl | rfl | rfl | rfl | rfl | rfl | rfl <;> rfl

/-- A property of gains that both edits keep is kept by the edit switch. -/
theorem allGains_editItem {P : ℚ → Prop} {key : ℕ}
    (speedGain : ∀ g, P g → P (editSpeedGain fm key g))
    (turnGain : ∀ g, P g → P (editTurnGain fm key g)) (item : ℕ) {ps : Params}
    (h : ps.AllGains P) : (editItem fm key item ps).AllGains P := by
  obtain ⟨⟨h1, h2, h3⟩, h4, h5, h6⟩ := id h
  unfold editItem
  split_ifs
  · exact ⟨⟨speedGain _ h1, h2, h3⟩, h4, h5, h6⟩
  · exact ⟨⟨h1, speedGain _ h2, h3⟩, h4, h5, h6⟩
  · exact ⟨⟨h1, h2, speedGain _ h3⟩, h4, h5, h6⟩
  · exact ⟨⟨h1, h2, h3⟩, turnGain _ h4, h5, h6⟩
  · exact ⟨⟨h1, h2, h3⟩, h4, turnGain _ h5, h6⟩
  · exact ⟨⟨h1, h2, h3⟩, h4, h5, turnGain _ h6⟩
  · exact h
  · exact h

theorem fits_editSpeed (key : ℕ) {speed : ℤ} (h : FitsSigned 32 speed) :
    FitsSigned 32 (editSpeed key speed) := by
  have zero : FitsSigned 32 0 := by decide
  have step : FitsSigned 32 (stepSpeed key speed) := by
    by_cases down : key = 2
    · subst down
      exact fits_toSigned 32 _
    · by_cases up : key = 1
      · subst up
        exact fits_toSigned 32 _
      · simpa [stepSpeed, down, up] using h
  unfold editSpeed
  split_ifs
  · exact zero
  · exact step

theorem speed_editItem (key item : ℕ) (ps : Params) :
    (editItem fm key item ps).speed = if item = 7 then editSpeed key ps.speed else ps.speed := by
  unfold editItem
  split_ifs <;> first | rfl | omega

/-! ## The rows -/

/-- The labels `SS`, as initialised on entry. -/
def ss : List String :=
  ["      Speed_P:    ", "      Spedd_I:    ", "      Spedd_D:    ", "      Turn__P:    ",
    "      Turn__I:    ", "      Turn__D:    ", "      Speed:    "]

/-- `(int)(g*10)`. -/
def shownGain (g : ℚ) : ℤ := fm.toI32 (fm.rnd (g * 10))

/-- The arguments of the seven `sprintf("%4d")` calls, in their order. -/
def shownNumbers (ps : Params) : List ℤ :=
  [shownGain fm ps.speedpid.p, shownGain fm ps.speedpid.i, shownGain fm ps.speedpid.d,
    shownGain fm ps.streepid.p, shownGain fm ps.streepid.i, shownGain fm ps.streepid.d, ps.speed]

/-- `AddNumString`: the first four characters of the number go to places 14 to 17 of
the label. -/
def addNumString (label text : List Char) : List Char := label.take 14 ++ text.take 4

/-- `SS[k]` after the numbers have been put in. -/
def setUiRow (ps : Params) (k : ℕ) : List Char :=
  addNumString (ss.getD k "").toList (formatInt 4 ((shownNumbers fm ps).getD k 0))

/-- The number written to `text[5]` leaves room for its terminator. -/
def TextFits (n : ℤ) : Prop := (formatInt 4 n).length ≤ 4

instance : DecidablePred TextFits := fun _ => inferInstanceAs (Decidable (_ ≤ _))

theorem textFits_iff (n : ℤ) : TextFits n ↔ -1000 < n ∧ n < 10000 := by
  have h := length_formatInt_le_iff 2 n
  norm_num at h
  exact h

/-- All seven conversions to `int` are defined and none overruns `text[5]`. -/
def NumbersFit (ps : Params) : Prop :=
  ps.AllGains (fun g => FitsSigned 32 (FloatModel.trunc (fm.rnd (g * 10)))) ∧
    ∀ n ∈ shownNumbers fm ps, TextFits n

instance (ps : Params) : Decidable (NumbersFit fm ps) := inferInstanceAs (Decidable (_ ∧ _))

end CannonCar
