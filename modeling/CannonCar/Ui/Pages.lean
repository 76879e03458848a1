import CannonCar.Ad
import CannonCar.Ui.SetUi

/-!
# The menu pages

The six page functions of `work/UI/ui.c` and the task loop that calls them.  A page
function runs from one `OSMboxPend` to the next without waiting, so what it does
there is a list of actions, and the key it wakes up with decides the list:
`uiResume` is the code between two `OSMboxPend`s, `uiEnter` the code from the call of
a page function to its first.

The variables only the task itself touches are updated along with the choice of the
list; everything another task can see or change in between is an action, so that
other tasks may run between any two of them.  `call` marks the point where the task
loop enters the next page function.

## What is load-bearing

**A list is built when the key comes.**  The values its actions show are those of that moment:
the parameters as the key leaves them, the readings as they are then.  For the parameters
this makes no difference, since only the UI task writes them; the readings may have moved on
by the time they are drawn.

**The pages that do not wait.**  `Record_UI` draws and returns, so entering it leads on to the
menu; the task loop delays itself by ten milliseconds between two pages.  A timeout of
`OSMboxPend` delivers the key 0, which no page answers but for `Set_UI`, which draws again.

**What is shared is an action.**  The switch, the channels, the controller, the display and the
parameters are changed by actions only, and `onMotor` and `onPanel` of `System` say how; the
cursors are in `UITask` and change with the key.
-/

namespace CannonCar

/-- The pages, in the order of `FunctionPointer`. -/
inductive Page
  | menu
  | run
  | state
  | set
  | record
  | read
  deriving DecidableEq, Repr

/-- What the UI task does between two `OSMboxPend`s, one visible effect at a time. -/
inductive UIAction
  /-- `FunctionPointer[ID]()`. -/
  | call (page : Page)
  /-- `OSTimeDlyHMSM(0, 0, 0, 10)`. -/
  | osTimeDly
  /-- `FTM_PWM_ChangeDuty(HW_FTM0, chl, duty)`. -/
  | changeDuty (chl duty : ℕ)
  /-- `speedPID(ENCODE)`. -/
  | speedPID
  /-- The assignment of `speedswitch`. -/
  | speedswitch (value : ℤ)
  | maxMin
  | oledCLS
  | oledP6x8Str (x y : ℕ) (ch : List Char)
  | lcdWriteNumber (x y : ℕ) (number : ℤ)
  | falshReserve
  /-- The edit of a parameter by `Set_UI`. -/
  | edit (key item : ℕ)

/-- The variables of the UI task: the static `Arrow` of the menu and the cursor of
`Set_UI`. -/
structure UITask where
  arrow : ℕ
  setUi : SetUi
  deriving DecidableEq

/-- The statics as initialised. -/
def UITask.init : UITask := ⟨3, SetUi.init⟩

/-! ## `Menu_UI` -/

/-- The head of the loop of `Menu_UI`, up to `OSMboxPend`. -/
def menuPend : List UIAction := [.changeDuty 3 500, .changeDuty 2 500]

/-- `Menu_UI` up to its loop. -/
def menuEntry (arrow : ℕ) : List UIAction :=
  [.oledCLS,
    .oledP6x8Str 0 0 "  Menu neusoft Juju".toList,
    .oledP6x8Str 0 1 "---------------------".toList,
    .oledP6x8Str 0 3 "      Run".toList,
    .oledP6x8Str 0 4 "      Car State".toList,
    .oledP6x8Str 0 5 "      Set Variable".toList,
    .oledP6x8Str 0 6 "      Plan Record".toList,
    .oledP6x8Str 0 7 "      Read".toList,
    .oledP6x8Str 23 arrow "->".toList]

/-- `Arrow--` with its wrap. -/
def arrowUp (arrow : ℕ) : ℕ := if (arrow + 255) % 256 < 3 then 7 else (arrow + 255) % 256

/-- `Arrow++` with its wrap. -/
def arrowDown (arrow : ℕ) : ℕ := if (arrow + 1) % 256 > 7 then 3 else (arrow + 1) % 256

/-- The arrow of the menu is erased and drawn in another row. -/
def moveArrow (old new : ℕ) : List UIAction :=
  [.oledP6x8Str 23 old "  ".toList, .oledP6x8Str 23 new "->".toList]

/-- The page key 3 enters from the menu. -/
def menuTarget (arrow : ℕ) : Option Page :=
  if arrow = 3 then some .run
  else if arrow = 4 then some .state
  else if arrow = 5 then some .set
  else if arrow = 6 then some .record
  else if arrow = 7 then some .read
  else none

/-! ## `Run_UI` -/

/-- `Run_UI` up to its first `OSMboxPend`. -/
def runEntry : List UIAction :=
  [.oledCLS,
    .oledP6x8Str 0 0 "Launching  Bett:".toList,
    .oledP6x8Str 0 1 "---------------------".toList,
    .oledP6x8Str 0 2 " STOP ".toList,
    .lcdWriteNumber 95 0 0]

/-- Key 3 in `Run_UI`. -/
def runStart : List UIAction := [.speedPID, .speedswitch 1, .oledP6x8Str 0 2 "RUNING".toList]

/-- Key 4 in `Run_UI`, up to its `return`. -/
def runStop : List UIAction := [.speedswitch 0, .speedPID, .changeDuty 3 0, .changeDuty 2 0]

/-! ## `State_UI` -/

/-- `State_UI` up to its first `OSMboxPend`. -/
def stateEntry : List UIAction :=
  [.oledCLS,
    .oledP6x8Str 0 0 "Reading:".toList,
    .oledP6x8Str 0 1 "---------------------".toList]

/-- Key 4 in `State_UI`, up to its `return`. -/
def stateStop : List UIAction := [.changeDuty 3 0, .changeDuty 2 0]

/-! ## `Record_UI` -/

/-- `Record_UI`, which does not wait. -/
def recordUi : List UIAction :=
  [.oledCLS,
    .oledP6x8Str 0 0 "         Plan:".toList,
    .oledP6x8Str 0 1 "---------------------".toList,
    .oledP6x8Str 0 2 "    Plan_1 = ".toList,
    .oledP6x8Str 0 3 "    Plan_2 = ".toList,
    .oledP6x8Str 0 4 "    Plan_3 = ".toList,
    .oledP6x8Str 0 5 "    Plan_4 = ".toList,
    .oledP6x8Str 0 6 "    Plan_5 = ".toList,
    .oledP6x8Str 0 7 "    Plan_6 = ".toList]

/-! ## `Read_UI` -/

/-- `Read_UI` up to its first `OSMboxPend`. -/
def readEntry : List UIAction :=
  [.oledCLS,
    .oledP6x8Str 0 0 "Reading:".toList,
    .oledP6x8Str 0 1 "---------------------".toList]

variable (fm : FloatModel)

/-- The numbers and labels `Read_UI` draws after an `OSMboxPend`; its `Page` is 0. -/
def readDraw (s : Sensors) : List UIAction :=
  [.lcdWriteNumber 70 2 s.ad1,
    .lcdWriteNumber 70 3 s.ad3,
    .lcdWriteNumber 70 4 s.ad2,
    .lcdWriteNumber 70 5 s.ad4,
    .lcdWriteNumber 70 6 s.adAll,
    .lcdWriteNumber 70 7 (fm.toI32 s.sumDiff),
    .oledP6x8Str 10 2 "ad1".toList,
    .oledP6x8Str 10 3 "ad3".toList,
    .oledP6x8Str 10 4 "ad2".toList,
    .oledP6x8Str 10 5 "ad4".toList]

/-! ## `Set_UI` -/

/-- The rows of the table, drawn from row 2 to row 7. -/
def setUiRows (page : ℕ) (ps : Params) : List UIAction :=
  (List.range 6).map fun k => .oledP6x8Str 0 (k + 2) (setUiRow fm ps (page + (k + 2) - 2))

/-- The marker of `Set_UI`. -/
def setUiMarker (u : SetUi) : List UIAction :=
  if u.arrowState = 0 then
    [.oledP6x8Str 24 u.saveSetArrow "  ".toList, .oledP6x8Str 24 u.setArrow "->".toList]
  else [.oledP6x8Str 24 u.saveSetArrow "- ".toList]

/-- One turn of the loop of `Set_UI`, up to its `OSMboxPend`, for a key that stays. -/
def setUiLoop (key : ℕ) (t : UITask) (ps : Params) : UITask × List UIAction :=
  let u := t.setUi.pressed key
  let save := if key = 4 then [UIAction.falshReserve] else []
  let change := if u.arrowState ≠ 0 then [.edit key u.item] else []
  let ps := if u.arrowState ≠ 0 then editItem fm key u.item ps else ps
  let u := u.checked
  ({ t with setUi := u.marked },
    save ++ change ++ setUiRows fm u.page ps ++ setUiMarker u)

theorem mem_setUiRows {page : ℕ} {ps : Params} {a : UIAction} (h : a ∈ setUiRows fm page ps) :
    ∃ x y ch, a = .oledP6x8Str x y ch := by
  obtain ⟨k, -, rfl⟩ := List.mem_map.mp h
  exact ⟨_, _, _, rfl⟩

theorem mem_setUiMarker {u : SetUi} {a : UIAction} (h : a ∈ setUiMarker u) :
    ∃ x y ch, a = .oledP6x8Str x y ch := by
  unfold setUiMarker at h
  split_ifs at h
  · rcases List.mem_pair.mp h with rfl | rfl <;> exact ⟨_, _, _, rfl⟩
  · obtain rfl := List.mem_singleton.mp h
    exact ⟨_, _, _, rfl⟩

/-- A turn of the loop saves, edits and draws. -/
theorem mem_setUiLoop {key : ℕ} {t : UITask} {ps : Params} {a : UIAction}
    (h : a ∈ (setUiLoop fm key t ps).2) :
    a = .falshReserve ∨ (∃ item, a = .edit key item) ∨ ∃ x y ch, a = .oledP6x8Str x y ch := by
  simp only [setUiLoop, List.mem_append] at h
  rcases h with ((h | h) | h) | h
  · split_ifs at h
    · exact Or.inl (List.mem_singleton.mp h)
    · cases h
  · split_ifs at h
    · exact Or.inr (Or.inl ⟨_, List.mem_singleton.mp h⟩)
    · cases h
  · exact Or.inr (Or.inr (mem_setUiRows fm h))
  · exact Or.inr (Or.inr (mem_setUiMarker h))

/-- `Set_UI` up to its loop. -/
def setUiEntry : List UIAction :=
  [.oledCLS,
    .oledP6x8Str 0 0 "Set Variable Bett:".toList,
    .oledP6x8Str 0 1 "---------------------".toList,
    .lcdWriteNumber 95 0 0]

/-! ## `UiStartTask` -/

/-- From the call of a page function to its first `OSMboxPend`.  `Record_UI` has none
and returns to the menu. -/
def uiEnter (page : Page) (t : UITask) (ps : Params) : UITask × List UIAction :=
  match page with
  | .menu => (t, UIAction.call .menu :: menuEntry t.arrow ++ menuPend)
  | .run => (t, UIAction.call .run :: runEntry)
  | .state => (t, UIAction.call .state :: stateEntry)
  | .set =>
      let turn := setUiLoop fm 0 { t with setUi := t.setUi.enter } ps
      (turn.1, UIAction.call .set :: setUiEntry ++ turn.2)
  | .record =>
      (t, UIAction.call .record :: recordUi ++
        UIAction.osTimeDly :: UIAction.call .menu :: menuEntry t.arrow ++ menuPend)
  | .read => (t, UIAction.call .read :: readEntry)

/-- A page function returns the ID of the next one. -/
def uiReturn (page : Page) (t : UITask) (ps : Params) : UITask × List UIAction :=
  let enter := uiEnter fm page t ps
  (enter.1, UIAction.osTimeDly :: enter.2)

/-- The code between two `OSMboxPend`s, for the key the first one delivers; a timeout
delivers 0. -/
def uiResume (page : Page) (key : ℕ) (t : UITask) (ps : Params) (s : Sensors) :
    UITask × List UIAction :=
  match page with
  | .menu =>
      if key = 1 then
        ({ t with arrow := arrowUp t.arrow }, moveArrow t.arrow (arrowUp t.arrow) ++ menuPend)
      else if key = 2 then
        ({ t with arrow := arrowDown t.arrow }, moveArrow t.arrow (arrowDown t.arrow) ++ menuPend)
      else if key = 3 then
        match menuTarget t.arrow with
        | some page => uiReturn fm page t ps
        | none => (t, menuPend)
      else if key = 4 then uiReturn fm .menu t ps
      else (t, menuPend)
  | .run =>
      if key = 3 then (t, runStart)
      else if key = 4 then
        let next := uiReturn fm .menu t ps
        (next.1, runStop ++ next.2)
      else (t, [])
  | .state =>
      if key = 4 then
        let next := uiReturn fm .menu t ps
        (next.1, UIAction.maxMin :: stateStop ++ next.2)
      else (t, [.maxMin])
  | .set =>
      if t.setUi.Leaves key then
        let next := uiReturn fm .menu t ps
        (next.1, UIAction.falshReserve :: next.2)
      else setUiLoop fm key t ps
  -- `Record_UI` does not wait for a key.
  | .record => (t, [])
  | .read =>
      if key = 4 then
        let next := uiReturn fm .menu t ps
        (next.1, readDraw fm s ++ next.2)
      else (t, readDraw fm s)

/-! ## What a key can lead to -/

/-- The action neither enters a page nor edits a parameter. -/
def UIAction.Plain : UIAction → Prop
  | call _ => False
  | edit _ _ => False
  | _ => True

/-- A key keeps a page other than `Set_UI`, or makes the page return, or is one turn of
the loop of `Set_UI`. -/
theorem uiResume_cases (page : Page) (key : ℕ) (t : UITask) (ps : Params) (s : Sensors) :
    (page ≠ .set ∧ (uiResume fm page key t ps s).1.setUi = t.setUi ∧
        ∀ a ∈ (uiResume fm page key t ps s).2, a.Plain) ∨
      (∃ exit target, (page = .set → t.setUi.Leaves key ∧ target = .menu) ∧
        (∀ a ∈ exit, a.Plain) ∧
        uiResume fm page key t ps s =
          ((uiReturn fm target t ps).1, exit ++ (uiReturn fm target t ps).2)) ∨
      (page = .set ∧ ¬ t.setUi.Leaves key ∧
        uiResume fm page key t ps s = setUiLoop fm key t ps) := by
  cases page with
  | menu =>
      unfold uiResume
      dsimp only
      split_ifs
      · exact Or.inl ⟨by decide, rfl, by simp [moveArrow, menuPend, UIAction.Plain]⟩
      · exact Or.inl ⟨by decide, rfl, by simp [moveArrow, menuPend, UIAction.Plain]⟩
      · cases menuTarget t.arrow with
        | none => exact Or.inl ⟨by decide, rfl, by simp [menuPend, UIAction.Plain]⟩
        | some target => exact Or.inr (Or.inl ⟨[], target, by simp, by simp, rfl⟩)
      · exact Or.inr (Or.inl ⟨[], .menu, by simp, by simp, rfl⟩)
      · exact Or.inl ⟨by decide, rfl, by simp [menuPend, UIAction.Plain]⟩
  | run =>
      unfold uiResume
      dsimp only
      split_ifs
      · exact Or.inl ⟨by decide, rfl, by simp [runStart, UIAction.Plain]⟩
      · exact Or.inr (Or.inl ⟨runStop, .menu, by simp, by simp [runStop, UIAction.Plain], rfl⟩)
      · exact Or.inl ⟨by decide, rfl, by simp⟩
  | state =>
      unfold uiResume
      dsimp only
      split_ifs
      · exact Or.inr (Or.inl ⟨.maxMin :: stateStop, .menu, by simp,
          by simp [stateStop, UIAction.Plain], rfl⟩)
      · exact Or.inl ⟨by decide, rfl, by simp [UIAction.Plain]⟩
  | set =>
      by_cases leaves : t.setUi.Leaves key
      · exact Or.inr (Or.inl ⟨[.falshReserve], .menu, fun _ => ⟨leaves, rfl⟩,
          by simp [UIAction.Plain], if_pos leaves⟩)
      · exact Or.inr (Or.inr ⟨rfl, leaves, if_neg leaves⟩)
  | record => exact Or.inl ⟨by decide, rfl, by simp [uiResume]⟩
  | read =>
      unfold uiResume
      dsimp only
      split_ifs
      · exact Or.inr (Or.inl ⟨readDraw fm s, .menu, by simp,
          by simp [readDraw, UIAction.Plain], rfl⟩)
      · exact Or.inl ⟨by decide, rfl, by simp [readDraw, UIAction.Plain]⟩

end CannonCar
