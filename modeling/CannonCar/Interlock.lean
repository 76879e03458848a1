import CannonCar.Foundation.Preempt
import CannonCar.System

/-!
# The motor interlock

Whenever the UI task waits for a key with `speedswitch == 0`, the two motor channels
of FTM0 carry the same duty, so the bridge is not driven; and `speedswitch` is set
only in `Run_UI` after key 3.

Five pages write the two channels in different ways and the speed task writes them
too while the switch is set, so the property does not hold between two actions of the
UI task.  It is proved through the view of the motor the argument needs (`Drive`), on
which the speed task is an interference that a cleared switch keeps out: what the UI
task still has to do is, at every point, a program that ends with the channels level
however it is preempted (`Interlocked`).

## What is load-bearing

* `Drive` forgets everything but the page, the keys it has consumed, the switch and the two
  duties.  On it the speed task is a preorder (`Drift`) that is the identity while the switch
  is cleared, and `Preempt.Wp` says what the pending actions guarantee under it.
* `Drive.Armed` holds at every point, `Drive.Parked` where a page waits.  A page that is
  entered with the switch cleared and the channels level (`Drive.Idle`) and does nothing to
  either stays so (`wp_calm`), which is all there is to say of most lists.
* The order of two statements carries the rest.  `Run_UI` clears the switch before it writes
  the channels; the other way round a period of the speed task could come in between and
  leave them apart.

`motor_interlock` is about events, so that it covers periods of the speed task between any two
actions of any page, and the compare registers along with the duties.
-/

namespace CannonCar

open MachineInt Trajectory Preempt

/-- The last duties written to the bridge, the switch, the running page, and the keys
it has consumed. -/
structure Drive where
  page : Page
  consumed : List ℕ
  speedswitch : ℤ
  ch2 : ℕ
  ch3 : ℕ

/-- The view of a state. -/
def Sys.drive (s : Sys) : Drive where
  page := s.page
  consumed := s.consumed
  speedswitch := s.motor.speedswitch
  ch2 := s.motor.pwm.ftm0Duty 2
  ch3 := s.motor.pwm.ftm0Duty 3

/-- What an action of the UI task does to the view. -/
def UIAction.onDrive (a : UIAction) (d : Drive) : Drive :=
  match a with
  | call page => { d with page := page, consumed := [] }
  | changeDuty chl duty =>
      { d with
        ch2 := if chl = 2 then duty else d.ch2
        ch3 := if chl = 3 then duty else d.ch3 }
  | speedswitch value => { d with speedswitch := value }
  | _ => d

/-- The speed task writes the channels while the switch is set. -/
structure Drift (d d' : Drive) : Prop where
  page : d'.page = d.page
  consumed : d'.consumed = d.consumed
  speedswitch : d'.speedswitch = d.speedswitch
  off : d.speedswitch = 0 → d' = d

/-- The UI task on the view, preempted by the speed task. -/
def driveSetting : Setting Drive UIAction where
  act := UIAction.onDrive
  rely := Drift
  refl _ := ⟨rfl, rfl, rfl, fun _ => rfl⟩
  trans h h' :=
    { page := h'.page.trans h.page
      consumed := h'.consumed.trans h.consumed
      speedswitch := h'.speedswitch.trans h.speedswitch
      off := fun off => (h'.off (h.speedswitch.trans off)).trans (h.off off) }

/-- The switch is set only in `Run_UI`, after key 3. -/
def Drive.Armed (d : Drive) : Prop := d.speedswitch ≠ 0 → d.page = .run ∧ 3 ∈ d.consumed

/-- With the switch cleared the channels are level. -/
def Drive.Parked (d : Drive) : Prop := d.speedswitch = 0 → d.ch2 = d.ch3

/-- The switch is cleared and the channels are level. -/
def Drive.Idle (d : Drive) : Prop := d.speedswitch = 0 ∧ d.ch2 = d.ch3

theorem Drive.Idle.armed {d : Drive} (h : d.Idle) : d.Armed := fun on => absurd h.1 on

theorem Drive.Idle.parked {d : Drive} (h : d.Idle) : d.Parked := fun _ => h.2

theorem Drive.Idle.drift {d d' : Drive} (h : d.Idle) (env : Drift d d') : d'.Idle := by
  rw [env.off h.1]
  exact h

/-- The rest of the UI task's actions keep the switch in its place and end with the
channels level, however they are preempted. -/
def Interlocked (as : List UIAction) (d : Drive) : Prop :=
  Wp driveSetting Drive.Armed Drive.Parked as d

/-! ## The lists of the pages -/

/-- The action leaves the channels alone and does not set the switch. -/
def UIAction.Calm : UIAction → Prop
  | changeDuty _ _ => False
  | speedswitch value => value = 0
  | _ => True

theorem UIAction.Calm.idle {a : UIAction} (calm : a.Calm) {d : Drive} (h : d.Idle) :
    (a.onDrive d).Idle := by
  cases a with
  | changeDuty chl duty => exact calm.elim
  | speedswitch value => exact ⟨calm, h.2⟩
  | _ => exact h

/-- Calm actions keep an idle motor idle. -/
theorem wp_calm {as : List UIAction} (calm : ∀ a ∈ as, a.Calm) {d : Drive} (h : d.Idle) :
    Wp driveSetting Drive.Armed Drive.Idle as d :=
  wp_invariant (fun _ _ h env => h.drift env) (fun _ h => h.armed)
    (fun a ha _ h => (calm a ha).idle h) h

/-- Two writes of one duty leave the channels level. -/
theorem wp_level {d : Drive} (off : d.speedswitch = 0) (duty : ℕ) :
    Wp driveSetting Drive.Armed Drive.Idle [.changeDuty 3 duty, .changeDuty 2 duty] d := by
  intro d₁ env
  obtain rfl := env.off off
  refine ⟨fun on => absurd off on, ?_⟩
  intro d₂ env
  obtain rfl := env.off off
  refine ⟨fun on => absurd off on, ?_⟩
  intro d₃ env
  obtain rfl := env.off off
  exact ⟨fun on => absurd off on, off, rfl⟩

theorem calm_menuEntry (arrow : ℕ) : ∀ a ∈ menuEntry arrow, a.Calm := by
  simp [menuEntry, UIAction.Calm]

/-- The menu from its call to its first `OSMboxPend`. -/
theorem wp_menu (arrow : ℕ) {d : Drive} (h : d.Idle) :
    Wp driveSetting Drive.Armed Drive.Idle (.call .menu :: menuEntry arrow ++ menuPend) d := by
  refine wp_append (fun d h => wp_level h.1 500) (wp_calm ?_ h)
  rintro a (_ | ⟨_, ha⟩)
  · trivial
  · exact calm_menuEntry arrow a ha

variable (fm : FloatModel)

theorem calm_setUiLoop (key : ℕ) (t : UITask) (ps : Params) :
    ∀ a ∈ (setUiLoop fm key t ps).2, a.Calm := by
  intro a ha
  rcases mem_setUiLoop fm ha with rfl | ⟨item, rfl⟩ | ⟨x, y, ch, rfl⟩ <;> trivial

/-- Every page starts by leaving an idle motor idle. -/
theorem wp_uiEnter (page : Page) (t : UITask) (ps : Params) {d : Drive} (h : d.Idle) :
    Wp driveSetting Drive.Armed Drive.Idle (uiEnter fm page t ps).2 d := by
  cases page with
  | menu => exact wp_menu t.arrow h
  | run =>
      refine wp_calm ?_ h
      simp [uiEnter, runEntry, UIAction.Calm]
  | state =>
      refine wp_calm ?_ h
      simp [uiEnter, stateEntry, UIAction.Calm]
  | set =>
      have head : ∀ a ∈ .call .set :: setUiEntry, a.Calm := by
        simp [setUiEntry, UIAction.Calm]
      refine wp_calm ?_ h
      intro a ha
      rcases List.mem_append.mp ha with ha | ha
      · exact head a ha
      · exact calm_setUiLoop fm 0 _ ps a ha
  | record =>
      show Wp _ _ _ ((UIAction.call .record :: recordUi ++ [UIAction.osTimeDly]) ++
        (UIAction.call .menu :: menuEntry t.arrow ++ menuPend)) d
      refine wp_append (fun d h => wp_menu t.arrow h) (wp_calm ?_ h)
      simp [recordUi, UIAction.Calm]
  | read =>
      refine wp_calm ?_ h
      simp [uiEnter, readEntry, UIAction.Calm]

/-- A page that returns with the motor idle leaves it so. -/
theorem wp_uiReturn (page : Page) (t : UITask) (ps : Params) {d : Drive} (h : d.Idle) :
    Wp driveSetting Drive.Armed Drive.Idle (uiReturn fm page t ps).2 d := by
  show Wp _ _ _ ([UIAction.osTimeDly] ++ (uiEnter fm page t ps).2) d
  refine wp_append (fun d h => wp_uiEnter fm page t ps h) (wp_calm ?_ h)
  simp [UIAction.Calm]

/-- Key 4 in `Run_UI` clears the switch before it writes the channels. -/
theorem wp_runStop {d : Drive} (armed : d.Armed) :
    Wp driveSetting Drive.Armed Drive.Idle runStop d := by
  intro d₁ env
  have armed₁ : d₁.Armed := by
    intro on
    rw [env.page, env.consumed]
    exact armed (env.speedswitch ▸ on)
  refine ⟨armed₁, ?_⟩
  have off : (UIAction.onDrive (.speedswitch 0) d₁).speedswitch = 0 := rfl
  intro d₂ env
  obtain rfl := env.off off
  exact ⟨fun on => absurd off on, wp_level off 0⟩

/-- Key 3 in `Run_UI` sets the switch where it may be set. -/
theorem wp_runStart {d : Drive} (page : d.page = .run) (consumed : 3 ∈ d.consumed) :
    Wp driveSetting Drive.Armed Drive.Parked runStart d := by
  intro d₁ env₁
  have here₁ : d₁.page = .run ∧ 3 ∈ d₁.consumed := by
    rw [env₁.page, env₁.consumed]
    exact ⟨page, consumed⟩
  refine ⟨fun _ => here₁, ?_⟩
  intro d₂ env₂
  have here₂ : d₂.page = .run ∧ 3 ∈ d₂.consumed := by
    rw [env₂.page, env₂.consumed]
    exact here₁
  refine ⟨fun _ => here₂, ?_⟩
  -- From here on the switch is set, so nothing is asked of the channels.
  refine (wp_invariant (I := fun d : Drive => (d.page = .run ∧ 3 ∈ d.consumed) ∧
    d.speedswitch ≠ 0) (s := UIAction.onDrive (.speedswitch 1) d₂) ?_ ?_ ?_
    ⟨here₂, one_ne_zero⟩).mono ?_
  · rintro d d' ⟨here, on⟩ env
    rw [env.page, env.consumed, env.speedswitch]
    exact ⟨here, on⟩
  · exact fun d h _ => h.1
  · intro a ha d h
    obtain rfl := List.mem_singleton.mp ha
    exact h
  · exact fun d h off => absurd off h.2

/-- A page with the motor idle leaves it so, whatever key it consumes. -/
theorem wp_uiResume {page : Page} (elsewhere : page ≠ .run) (key : ℕ) (t : UITask) (ps : Params)
    (s : Sensors) {d : Drive} (idle : d.Idle) :
    Wp driveSetting Drive.Armed Drive.Idle (uiResume fm page key t ps s).2 d := by
  have menu : ∀ {d : Drive}, d.Idle →
      Wp driveSetting Drive.Armed Drive.Idle (uiReturn fm .menu t ps).2 d :=
    wp_uiReturn fm .menu t ps
  have level : ∀ as : List UIAction, (∀ a ∈ as, a.Calm) →
      Wp driveSetting Drive.Armed Drive.Idle (as ++ menuPend) d :=
    fun as calm => wp_append (fun _ h => wp_level h.1 500) (wp_calm calm idle)
  have pend : Wp driveSetting Drive.Armed Drive.Idle menuPend d := wp_level idle.1 500
  cases page with
  | menu =>
      unfold uiResume
      dsimp only
      split_ifs
      · exact level _ (by simp [moveArrow, UIAction.Calm])
      · exact level _ (by simp [moveArrow, UIAction.Calm])
      · cases menuTarget t.arrow with
        | none => exact pend
        | some page => exact wp_uiReturn fm page t ps idle
      · exact menu idle
      · exact pend
  | run => exact absurd rfl elsewhere
  | state =>
      unfold uiResume
      dsimp only
      split_ifs
      · show Wp _ _ _ (([UIAction.maxMin] ++ stateStop) ++ (uiReturn fm .menu t ps).2) d
        refine wp_append (fun d h => menu h) ?_
        refine wp_append (fun d h => wp_level h.1 0) (wp_calm ?_ idle)
        simp [UIAction.Calm]
      · refine wp_calm ?_ idle
        simp [UIAction.Calm]
  | set =>
      unfold uiResume
      dsimp only
      split_ifs
      · show Wp _ _ _ ([UIAction.falshReserve] ++ (uiReturn fm .menu t ps).2) d
        refine wp_append (fun d h => menu h) (wp_calm ?_ idle)
        simp [UIAction.Calm]
      · exact wp_calm (calm_setUiLoop fm key t ps) idle
  | record => exact wp_calm (by simp [uiResume]) idle
  | read =>
      have draw : ∀ a ∈ readDraw fm s, a.Calm := by
        simp [readDraw, UIAction.Calm]
      unfold uiResume
      dsimp only
      split_ifs
      · exact wp_append (fun d h => menu h) (wp_calm draw idle)
      · exact wp_calm draw idle

/-- `Run_UI` keeps the interlock, whether the motor runs or not. -/
theorem interlocked_run {d : Drive} (running : d.page = .run) (armed : d.Armed)
    (parked : d.Parked) {key : ℕ} (hkey : key ∈ d.consumed) (t : UITask) (ps : Params)
    (s : Sensors) : Interlocked (uiResume fm .run key t ps s).2 d := by
  by_cases start : key = 3
  · simp only [uiResume, if_pos start]
    exact wp_runStart running (start ▸ hkey)
  by_cases stop : key = 4
  · simp only [uiResume, if_neg start, if_pos stop]
    refine wp_append (fun d h => ?_) (wp_runStop armed)
    exact (wp_uiReturn fm .menu t ps h).mono fun _ h => h.parked
  · simp only [uiResume, if_neg start, if_neg stop]
    -- Nothing to do: what held before the key holds through the interference.
    intro d' env
    refine ⟨fun on => ?_, fun off => ?_⟩
    · rw [env.page, env.consumed]
      exact armed (env.speedswitch ▸ on)
    · have off' : d.speedswitch = 0 := env.speedswitch ▸ off
      rw [env.off off']
      exact parked off'

/-- **The interlock of the UI task.**  Whatever key a waiting page consumes, the list
of actions it leads to is interlocked. -/
theorem interlocked_uiResume {d : Drive} (armed : d.Armed) (parked : d.Parked) {key : ℕ}
    (hkey : key ∈ d.consumed) (t : UITask) (ps : Params) (s : Sensors) :
    Interlocked (uiResume fm d.page key t ps s).2 d := by
  by_cases running : d.page = .run
  · rw [running]
    exact interlocked_run fm running armed parked hkey t ps s
  · -- Outside `Run_UI` the switch cannot be set, so the motor is idle.
    have off : d.speedswitch = 0 := by
      by_contra on
      exact running (armed on).1
    exact (wp_uiResume fm running key t ps s ⟨off, parked off⟩).mono fun _ h => h.parked

/-! ## The system -/

/-- The view after an action, field by field. -/
theorem drive_exec_eq (a : UIAction) (s : Sys) :
    (Sys.exec fm a s).drive =
      { page := match a with | .call page => page | _ => s.page
        consumed := match a with | .call _ => [] | _ => s.consumed
        speedswitch := (a.onMotor fm s.panel.params s.motor).speedswitch
        ch2 := (a.onMotor fm s.panel.params s.motor).pwm.ftm0Duty 2
        ch3 := (a.onMotor fm s.panel.params s.motor).pwm.ftm0Duty 3 } := rfl

theorem drive_exec (a : UIAction) (s : Sys) : (Sys.exec fm a s).drive = a.onDrive s.drive := by
  rw [drive_exec_eq]
  cases a with
  | changeDuty chl duty =>
      simp only [Sys.drive, UIAction.onMotor, UIAction.onDrive, Pwm.ftm0Duty_changeDuty]
  | speedPID =>
      rw [UIAction.onMotor_speedPID, Motor.setSpeed_pwm, Motor.setSpeed_speedswitch]
      rfl
  | _ => rfl

/-- The view drifts with the speed task. -/
theorem drift_tick (s : Sys) (count : ℕ) :
    Drift s.drive
      (Sys.drive { s with motor := s.motor.tick fm s.panel.params count }) where
  page := rfl
  consumed := rfl
  speedswitch := speedswitch_tick fm s.motor s.panel.params count
  off := by
    intro off
    show Drive.mk _ _ _ _ _ = Drive.mk _ _ _ _ _
    rw [speedswitch_tick, pwm_tick_idle fm off]

/-- The steering task writes to another module. -/
theorem drive_turn (s : Sys) : (s.turn fm).drive = s.drive := by
  show Drive.mk _ _ _ _ _ = Drive.mk _ _ _ _ _
  simp [Sys.turn, Pwm.ftm0Duty, lastDuty]

/-- What the UI task still has to do is interlocked, in every reachable state. -/
theorem interlocked_sysAt (clock : ℕ) (flash : Flash) (sensors : Sensors) (es : List Event) :
    Interlocked (sysAt fm clock flash sensors es).pending
      (sysAt fm clock flash sensors es).drive := by
  refine sys_invariant fm (P := fun s : Sys => Interlocked s.pending s.drive) ?_ ?_ ?_ ?_ ?_ ?_ es
  · intro s k h waiting
    rw [waiting] at h
    have armed : Drive.Armed { s.drive with consumed := k :: s.consumed } :=
      fun on => ⟨(h.now on).1, List.mem_cons_of_mem k (h.now on).2⟩
    exact interlocked_uiResume fm armed h.done List.mem_cons_self _ _ _
  · intro s a rest h next
    rw [next] at h
    rw [drive_exec]
    exact h.next
  · intro s count h
    exact h.of_rely (drift_tick fm s count)
  · intro s h
    rw [drive_turn]
    exact h
  · exact fun s sensors h => h
  · have zero := Pwm.ftm0Duty_speedInit clock Pwm.reset
    have idle : (boot fm clock flash sensors).drive.Idle := ⟨rfl, zero.1.trans zero.2.symm⟩
    exact (wp_uiEnter fm .menu UITask.init (flashRead fm flash) idle).mono fun _ h => h.parked

theorem synced_exec {s : Sys} (h : s.motor.pwm.Synced) (a : UIAction) :
    (Sys.exec fm a s).motor.pwm.Synced := by
  cases a with
  | changeDuty chl duty => exact h.changeDuty .ui 0 chl duty
  | speedPID =>
      show (UIAction.onMotor fm s.panel.params s.motor .speedPID).pwm.Synced
      rwa [UIAction.onMotor_speedPID, Motor.setSpeed_pwm]
  | _ => exact h

theorem synced_tick {m : Motor} (h : m.pwm.Synced) (ps : Params) (count : ℕ) :
    (m.tick fm ps count).pwm.Synced := by
  unfold Motor.tick
  dsimp only
  split_ifs
  · exact (h.changeDuty .speedCtrl 0 3 _).changeDuty .speedCtrl 0 2 0
  · exact h

theorem synced_sysAt (clock : ℕ) (flash : Flash) (sensors : Sensors) (es : List Event) :
    (sysAt fm clock flash sensors es).motor.pwm.Synced := by
  refine sys_invariant fm (P := fun s : Sys => s.motor.pwm.Synced) ?_ ?_ ?_ ?_ ?_ ?_ es
  · exact fun s k h waiting => h
  · exact fun s a rest h next => synced_exec fm h a
  · exact fun s count h => synced_tick fm h _ count
  · exact fun s h => h.changeDuty .ctrl 1 1 _
  · exact fun s sensors h => h
  · exact Pwm.synced_speedInit clock

/-- An event of another task than the UI task. -/
def Event.Other : Event → Prop
  | key _ => False
  | ui => False
  | _ => True

/-- With the switch cleared, the other tasks leave the view as it is. -/
theorem drive_run_other {s : Sys} (off : s.motor.speedswitch = 0) {later : List Event}
    (other : ∀ e ∈ later, e.Other) : (Trajectory.run (sysStep fm) s later).drive = s.drive := by
  induction later generalizing s with
  | nil => rfl
  | cons e later ih =>
      have here : (sysStep fm s e).drive = s.drive := by
        cases e with
        | key k => exact (other _ List.mem_cons_self).elim
        | ui => exact (other _ List.mem_cons_self).elim
        | tick count => exact (drift_tick fm s count).off off
        | turn => exact drive_turn fm s
        | ad sensors => rfl
      have off' : (sysStep fm s e).motor.speedswitch = 0 := by
        show (sysStep fm s e).drive.speedswitch = 0
        rw [here]
        exact off
      rw [run_cons, ih off' fun e he => other e (List.mem_cons_of_mem _ he), here]

/-- **The motor interlock.**  In every state of every run from `speedInit`: while a
page waits in `OSMboxPend` with `speedswitch == 0`, the last duties written to FTM0
CH2 and CH3 are equal and so are the two compare values, and no period of another
task changes a duty before the UI task runs again; and `speedswitch` is set only while
`Run_UI` is the running page and has consumed key 3. -/
theorem motor_interlock (clock : ℕ) (flash : Flash) (sensors : Sensors) (es : List Event) :
    let s := sysAt fm clock flash sensors es
    (s.pending = [] → s.motor.speedswitch = 0 →
      s.motor.pwm.ftm0Duty 2 = s.motor.pwm.ftm0Duty 3 ∧
        (s.motor.pwm.ftm 0).cnv 2 = (s.motor.pwm.ftm 0).cnv 3 ∧
        ∀ later : List Event, (∀ e ∈ later, e.Other) →
          let s' := Trajectory.run (sysStep fm) s later
          s'.motor.pwm.ftm0Duty 2 = s.motor.pwm.ftm0Duty 2 ∧
            s'.motor.pwm.ftm0Duty 3 = s.motor.pwm.ftm0Duty 3) ∧
      (s.motor.speedswitch ≠ 0 → s.page = .run ∧ 3 ∈ s.consumed) := by
  intro s
  have locked : Interlocked s.pending s.drive := interlocked_sysAt fm clock flash sensors es
  have synced : s.motor.pwm.Synced := synced_sysAt fm clock flash sensors es
  refine ⟨?_, locked.now⟩
  intro waiting off
  rw [waiting] at locked
  have level : s.motor.pwm.ftm0Duty 2 = s.motor.pwm.ftm0Duty 3 := locked.done off
  refine ⟨level, ?_, ?_⟩
  · rw [synced.cnv 2 (Or.inl rfl), synced.cnv 3 (Or.inr rfl), level]
  · intro later other s'
    have same : s'.drive = s.drive := drive_run_other fm off other
    exact ⟨congrArg Drive.ch2 same, congrArg Drive.ch3 same⟩

end CannonCar
