import CannonCar.Ctrl.Speed
import CannonCar.Ctrl.Steer
import CannonCar.Oled
import CannonCar.Ui.Pages

/-!
# The tasks of the car

`UiStartTask`, `speedStartTask` and `TurnStartTask` of `app/app.c` running on the
shared state of the car.  The shared state is in two parts: the `Motor`, which the
tasks write duties to, and the `Panel`, which only the UI task writes and the control
tasks read their gains from.

A step of the system is one event: the waiting UI task is handed a key, the UI task
does the next of its pending actions, the speed task or the steering task runs one
period, or the sensor task publishes its readings.  An event that is not possible in a
state (a key for a UI task that is not waiting, an action of one that is) leaves the
state as it is, so every list of events is a run and every interleaving is a list of
events.

The UI task waits in `OSMboxPend` exactly when it has no pending action.

## What is load-bearing

**Every list of events is a run.**  Priorities are not modelled: whatever can do something may
be next.  The kernel allows fewer interleavings than that, so what is proved of all runs here
holds of those of the car.

**A period of a control task is one event**, the controller and the write of its duty
together.  Any number of periods may fall between two actions of the UI task, and any number
of actions between two periods.

**The motor and the panel are apart.**  No event writes the panel but those of the UI task and
the sensors, and what the control tasks read of it is the gains, the setting and the
readings.  So the two halves of a run can be studied one by one: the interlock looks at the
motor, the display at the panel.
-/

namespace CannonCar

open MachineInt Trajectory

/-! ## The shared state -/

/-- The PWM modules with their log, the speed controller's statics and the two globals
of the speed task. -/
structure Motor where
  pwm : Pwm
  speed : SpeedState
  /-- `ENCODE`. -/
  encode : ℤ
  speedswitch : ℤ

/-- The motor with the speed controller in another state. -/
def Motor.setSpeed (m : Motor) (st : SpeedState) : Motor := { m with speed := st }

@[simp] theorem Motor.setSpeed_pwm (m : Motor) (st : SpeedState) : (m.setSpeed st).pwm = m.pwm :=
  rfl

@[simp] theorem Motor.setSpeed_speed (m : Motor) (st : SpeedState) : (m.setSpeed st).speed = st :=
  rfl

@[simp] theorem Motor.setSpeed_encode (m : Motor) (st : SpeedState) :
    (m.setSpeed st).encode = m.encode :=
  rfl

@[simp] theorem Motor.setSpeed_speedswitch (m : Motor) (st : SpeedState) :
    (m.setSpeed st).speedswitch = m.speedswitch :=
  rfl

/-- The display and the values the pages read and edit. -/
structure Panel where
  oled : Oled
  params : Params
  flash : Flash
  sensors : Sensors
  range : AdRange

variable (fm : FloatModel)

/-- What an action does to the motor, under the parameters `ps`. -/
def UIAction.onMotor (ps : Params) (m : Motor) : UIAction → Motor
  | changeDuty chl duty => { m with pwm := m.pwm.changeDuty .ui 0 chl duty }
  | speedPID =>
      m.setSpeed (CannonCar.speedPID fm ps.speedpid ps.speed (toUnsigned 32 m.encode) m.speed)
  | speedswitch value => { m with speedswitch := value }
  | _ => m

@[simp] theorem UIAction.onMotor_speedPID (ps : Params) (m : Motor) :
    UIAction.onMotor fm ps m .speedPID =
      m.setSpeed (CannonCar.speedPID fm ps.speedpid ps.speed (toUnsigned 32 m.encode) m.speed) :=
  rfl

/-- What an action does to the panel. -/
def UIAction.onPanel (p : Panel) : UIAction → Panel
  | maxMin => { p with range := CannonCar.maxMin fm p.sensors p.range }
  | oledCLS => { p with oled := CannonCar.oledCLS p.oled }
  | oledP6x8Str x y ch => { p with oled := CannonCar.oledP6x8Str x y ch p.oled }
  | lcdWriteNumber x y number => { p with oled := CannonCar.lcdWriteNumber x y number p.oled }
  | falshReserve => { p with flash := CannonCar.falshReserve fm p.params p.flash }
  | edit key item => { p with params := editItem fm key item p.params }
  | _ => p

/-- `DMA_CITER_ELINKNO_CITER_MASK`. -/
def citerMask : ℤ := 0x7FFF

/-- One period of `speedStartTask`; `count` is what `CITER` of the encoder's DMA
channel has come down to. -/
def Motor.tick (ps : Params) (count : ℕ) (m : Motor) : Motor :=
  let m := { m with encode := citerMask - (count &&& 0x7FFF : ℕ) }
  if m.speedswitch ≠ 0 then
    let out := speedCtrl fm ps.speedpid ps.speed m.encode m.speed m.pwm
    { m with speed := out.1, pwm := out.2 }
  else m

/-! ## The system -/

/-- A state of the system. -/
structure Sys where
  task : UITask
  /-- The page function that is running. -/
  page : Page
  /-- The keys consumed since that function was called, newest first. -/
  consumed : List ℕ
  /-- What the UI task still does before its next `OSMboxPend`. -/
  pending : List UIAction
  motor : Motor
  steer : SteerState
  panel : Panel

/-- An event. -/
inductive Event
  /-- `OSMboxPend` returns: a key, or 0 after a timeout. -/
  | key (key : ℕ)
  /-- The UI task does its next action. -/
  | ui
  /-- A period of the speed task, with the count it reads from `CITER`. -/
  | tick (count : ℕ)
  /-- A period of the steering task. -/
  | turn
  /-- The sensor task publishes its readings. -/
  | ad (sensors : Sensors)

/-- An action is done. -/
def Sys.exec (a : UIAction) (s : Sys) : Sys :=
  { s with
    page := match a with | .call page => page | _ => s.page
    consumed := match a with | .call _ => [] | _ => s.consumed
    motor := a.onMotor fm s.panel.params s.motor
    panel := a.onPanel fm s.panel }

/-- The waiting UI task consumes a key. -/
def Sys.consume (key : ℕ) (s : Sys) : Sys :=
  let next := uiResume fm s.page key s.task s.panel.params s.panel.sensors
  { s with task := next.1, consumed := key :: s.consumed, pending := next.2 }

/-- One period of `TurnStartTask`. -/
def Sys.turn (s : Sys) : Sys :=
  let out := ctrl fm
    { streepid := s.panel.params.streepid
      ad3 := s.panel.sensors.ad3
      ad4 := s.panel.sensors.ad4
      sumDiff := s.panel.sensors.sumDiff } s.steer
  { s with
    steer := out.1
    motor := { s.motor with pwm := s.motor.pwm.changeDuty .ctrl 1 1 out.2.changeDuty } }

/-- One event. -/
def sysStep (s : Sys) : Event → Sys
  | .key key => if s.pending = [] then s.consume fm key else s
  | .ui =>
      match s.pending with
      | [] => s
      | a :: rest => Sys.exec fm a { s with pending := rest }
  | .tick count => { s with motor := s.motor.tick fm s.panel.params count }
  | .turn => s.turn fm
  | .ad sensors => { s with panel := { s.panel with sensors := sensors } }

/-- The state `speedInit` leaves, with the parameters `Flash_Read` has loaded, as
`UiStartTask` calls the menu. -/
def boot (clock : ℕ) (flash : Flash) (sensors : Sensors) : Sys :=
  let enter := uiEnter fm .menu UITask.init (flashRead fm flash)
  { task := enter.1
    page := .menu
    consumed := []
    pending := enter.2
    motor :=
      { pwm := Pwm.reset.speedInit clock
        speed := SpeedState.init
        encode := 0
        speedswitch := 0 }
    steer := SteerState.init
    panel :=
      { oled := Oled.blank
        params := flashRead fm flash
        flash := flash
        sensors := sensors
        range := AdRange.init } }

/-- The state after the events `es`. -/
def sysAt (clock : ℕ) (flash : Flash) (sensors : Sensors) (es : List Event) : Sys :=
  Trajectory.run (sysStep fm) (boot fm clock flash sensors) es

/-- The UI task does its next `n` actions. -/
def uiSteps (n : ℕ) : List Event := List.replicate n .ui

/-- No field on any sensor. -/
def noSensors : Sensors := ⟨0, 0, 0, 0, 0, 0⟩

/-! ## Single events -/

section Exec

variable (a : UIAction) (s : Sys)

@[simp] theorem exec_task : (Sys.exec fm a s).task = s.task := rfl

theorem exec_page :
    (Sys.exec fm a s).page = match a with | .call page => page | _ => s.page :=
  rfl

@[simp] theorem exec_pending : (Sys.exec fm a s).pending = s.pending := rfl

@[simp] theorem exec_steer : (Sys.exec fm a s).steer = s.steer := rfl

@[simp] theorem exec_motor : (Sys.exec fm a s).motor = a.onMotor fm s.panel.params s.motor := rfl

@[simp] theorem exec_panel : (Sys.exec fm a s).panel = a.onPanel fm s.panel := rfl

/-- No action of the UI task publishes readings. -/
@[simp] theorem sensors_onPanel (p : Panel) : (a.onPanel fm p).sensors = p.sensors := by
  cases a <;> rfl

/-- Parameters change by edits only. -/
theorem params_onPanel (p : Panel) :
    (a.onPanel fm p).params =
      match a with
      | .edit key item => editItem fm key item p.params
      | _ => p.params := by
  cases a <;> rfl

end Exec

theorem tick_idle {m : Motor} (off : m.speedswitch = 0) (ps : Params) (count : ℕ) :
    m.tick fm ps count = { m with encode := citerMask - (count &&& 0x7FFF : ℕ) } := by
  simp [Motor.tick, off]

theorem tick_on {m : Motor} (on : m.speedswitch ≠ 0) (ps : Params) (count : ℕ) :
    m.tick fm ps count =
      let encode := citerMask - (count &&& 0x7FFF : ℕ)
      let out := speedCtrl fm ps.speedpid ps.speed encode m.speed m.pwm
      { m with encode := encode, speed := out.1, pwm := out.2 } := by
  simp [Motor.tick, on]

/-- With the motor switched off, the speed task writes nothing. -/
theorem pwm_tick_idle {m : Motor} (off : m.speedswitch = 0) (ps : Params) (count : ℕ) :
    (m.tick fm ps count).pwm = m.pwm := by
  rw [tick_idle fm off]

@[simp] theorem speedswitch_tick (m : Motor) (ps : Params) (count : ℕ) :
    (m.tick fm ps count).speedswitch = m.speedswitch := by
  unfold Motor.tick
  dsimp only
  split_ifs <;> rfl

@[simp] theorem encode_tick (m : Motor) (ps : Params) (count : ℕ) :
    (m.tick fm ps count).encode = citerMask - (count &&& 0x7FFF : ℕ) := by
  unfold Motor.tick
  dsimp only
  split_ifs <;> rfl

/-- The UI task reads the encoder value and leaves it alone. -/
theorem encode_onMotor (m : Motor) (ps : Params) (a : UIAction) :
    (a.onMotor fm ps m).encode = m.encode := by
  cases a with
  | speedPID => rw [UIAction.onMotor_speedPID, Motor.setSpeed_encode]
  | _ => rfl

/-- What one event can do. -/
theorem sysStep_cases (s : Sys) (e : Event) :
    sysStep fm s e = s ∨
      (∃ k, s.pending = [] ∧ sysStep fm s e = s.consume fm k) ∨
      (∃ a rest, s.pending = a :: rest ∧
        sysStep fm s e = Sys.exec fm a { s with pending := rest }) ∨
      (∃ count, e = .tick count ∧
        sysStep fm s e = { s with motor := s.motor.tick fm s.panel.params count }) ∨
      sysStep fm s e = s.turn fm ∨
      ∃ sensors, sysStep fm s e = { s with panel := { s.panel with sensors := sensors } } := by
  cases e with
  | key k =>
      by_cases waiting : s.pending = []
      · exact Or.inr (Or.inl ⟨k, waiting, if_pos waiting⟩)
      · exact Or.inl (if_neg waiting)
  | ui =>
      cases next : s.pending with
      | nil => exact Or.inl (by simp only [sysStep, next])
      | cons a rest => exact Or.inr (Or.inr (Or.inl ⟨a, rest, rfl, by simp only [sysStep, next]⟩))
  | tick count => exact Or.inr (Or.inr (Or.inr (Or.inl ⟨count, rfl, rfl⟩)))
  | turn => exact Or.inr (Or.inr (Or.inr (Or.inr (Or.inl rfl))))
  | ad sensors => exact Or.inr (Or.inr (Or.inr (Or.inr (Or.inr ⟨sensors, rfl⟩))))

/-- An invariant of the system, from what each kind of event keeps. -/
theorem sys_invariant {P : Sys → Prop}
    (key : ∀ s k, P s → s.pending = [] → P (s.consume fm k))
    (ui : ∀ s a rest, P s → s.pending = a :: rest → P (Sys.exec fm a { s with pending := rest }))
    (tick : ∀ s count, P s → P { s with motor := s.motor.tick fm s.panel.params count })
    (turn : ∀ s, P s → P (s.turn fm))
    (ad : ∀ s sensors, P s → P { s with panel := { s.panel with sensors := sensors } })
    {s : Sys} (start : P s) (es : List Event) : P (Trajectory.run (sysStep fm) s es) := by
  refine run_invariant ?_ start es
  intro s e h
  rcases sysStep_cases fm s e with
    same | ⟨k, waiting, eq⟩ | ⟨a, rest, next, eq⟩ | ⟨count, -, eq⟩ | eq | ⟨sensors, eq⟩
  · rwa [same]
  · rw [eq]
    exact key s k h waiting
  · rw [eq]
    exact ui s a rest h next
  · rw [eq]
    exact tick s count h
  · rw [eq]
    exact turn s h
  · rw [eq]
    exact ad s sensors h

end CannonCar
