import CannonCar.SoftStart

/-!
# The start key while the motor runs

`Run_UI` answers key 3 with a call of `speedPID(ENCODE)` of its own before it sets
`speedswitch`, so the key is not idempotent: the call advances the controller the
speed task goes on with.  What a further key 3 does is exactly what a further period
of the speed task at the last reading does, less that period's write
(`start_key_as_tick`).

The two runs are compared through the part of the state that decides what is written
later (`Agree`), which leaves out the display, the keys consumed and the registers and
log themselves.

## What is load-bearing

**The comparison is with a period, not with nothing.**  The extra key is not harmless: it moves
the controller's statics as a period would.  What it does not do is write the channel.

**`Agree` is kept by every event.**  Controller, switch, reading, page, pending actions,
parameters and readings of the coils are all that later writes depend on.  The keys consumed
are left out because one run has consumed one more, and the log because one write is missing;
that the writes from then on are the same, entry by entry, follows event by event.
-/

namespace CannonCar

open MachineInt Trajectory

/-- Two states in which the tasks go on alike. -/
structure Agree (s s' : Sys) : Prop where
  task : s.task = s'.task
  page : s.page = s'.page
  pending : s.pending = s'.pending
  speed : s.motor.speed = s'.motor.speed
  encode : s.motor.encode = s'.motor.encode
  speedswitch : s.motor.speedswitch = s'.motor.speedswitch
  steer : s.steer = s'.steer
  params : s.panel.params = s'.panel.params
  sensors : s.panel.sensors = s'.panel.sensors

/-- The duty writes of a state. -/
def Sys.writes (s : Sys) : List PwmWrite := s.motor.pwm.writes

variable (fm : FloatModel)

/-- An action of the UI task acts alike on two motors that agree, and writes the same. -/
theorem agree_onMotor {m m' : Motor} (ps : Params) (speed : m.speed = m'.speed)
    (encode : m.encode = m'.encode) (speedswitch : m.speedswitch = m'.speedswitch)
    (a : UIAction) :
    (a.onMotor fm ps m).speed = (a.onMotor fm ps m').speed ∧
      (a.onMotor fm ps m).encode = (a.onMotor fm ps m').encode ∧
      (a.onMotor fm ps m).speedswitch = (a.onMotor fm ps m').speedswitch ∧
      ∃ new, (a.onMotor fm ps m).pwm.writes = new ++ m.pwm.writes ∧
        (a.onMotor fm ps m').pwm.writes = new ++ m'.pwm.writes := by
  cases a with
  | changeDuty chl duty =>
      exact ⟨speed, encode, speedswitch, [⟨.ui, 0, chl, duty⟩], rfl, rfl⟩
  | speedPID =>
      rw [UIAction.onMotor_speedPID, UIAction.onMotor_speedPID, Motor.setSpeed_speed,
        Motor.setSpeed_speed, Motor.setSpeed_encode, Motor.setSpeed_encode,
        Motor.setSpeed_speedswitch, Motor.setSpeed_speedswitch, Motor.setSpeed_pwm,
        Motor.setSpeed_pwm, speed, encode]
      exact ⟨rfl, rfl, speedswitch, [], rfl, rfl⟩
  | speedswitch value => exact ⟨speed, encode, rfl, [], rfl, rfl⟩
  | _ => exact ⟨speed, encode, speedswitch, [], rfl, rfl⟩

/-- An action of the UI task keeps two states alike and writes the same. -/
theorem agree_exec {s s' : Sys} (h : Agree s s') (a : UIAction) :
    Agree (Sys.exec fm a s) (Sys.exec fm a s') ∧
      ∃ new, (Sys.exec fm a s).writes = new ++ s.writes ∧
        (Sys.exec fm a s').writes = new ++ s'.writes := by
  obtain ⟨speed, encode, speedswitch, written⟩ :=
    agree_onMotor fm s.panel.params h.speed h.encode h.speedswitch a
  have page : (Sys.exec fm a s).page = (Sys.exec fm a s').page := by
    rw [exec_page, exec_page, h.page]
  have params : (a.onPanel fm s.panel).params = (a.onPanel fm s'.panel).params := by
    rw [params_onPanel, params_onPanel, h.params]
  constructor
  · constructor
    · rw [exec_task, exec_task, h.task]
    · exact page
    · rw [exec_pending, exec_pending, h.pending]
    · rw [exec_motor, exec_motor, ← h.params, speed]
    · rw [exec_motor, exec_motor, ← h.params, encode]
    · rw [exec_motor, exec_motor, ← h.params, speedswitch]
    · rw [exec_steer, exec_steer, h.steer]
    · rw [exec_panel, exec_panel, params]
    · rw [exec_panel, exec_panel, sensors_onPanel, sensors_onPanel, h.sensors]
  · obtain ⟨new, left, right⟩ := written
    refine ⟨new, ?_, ?_⟩
    · rw [Sys.writes, exec_motor, left, Sys.writes]
    · rw [Sys.writes, exec_motor, ← h.params, right, Sys.writes]

/-- A period of the speed task acts alike on two motors that agree, and writes the
same. -/
theorem agree_onTick {m m' : Motor} (ps : Params) (speed : m.speed = m'.speed)
    (speedswitch : m.speedswitch = m'.speedswitch) (count : ℕ) :
    (m.tick fm ps count).speed = (m'.tick fm ps count).speed ∧
      (m.tick fm ps count).encode = (m'.tick fm ps count).encode ∧
      ∃ new, (m.tick fm ps count).pwm.writes = new ++ m.pwm.writes ∧
        (m'.tick fm ps count).pwm.writes = new ++ m'.pwm.writes := by
  by_cases off : m.speedswitch = 0
  · rw [tick_idle fm off, tick_idle fm (speedswitch ▸ off)]
    exact ⟨speed, rfl, [], rfl, rfl⟩
  · rw [tick_on fm off, tick_on fm (speedswitch ▸ off), speed]
    exact ⟨rfl, rfl, [_, _], rfl, rfl⟩

/-- An event keeps two states alike and writes the same in both. -/
theorem agree_sysStep {s s' : Sys} (h : Agree s s') (e : Event) :
    Agree (sysStep fm s e) (sysStep fm s' e) ∧
      ∃ new, (sysStep fm s e).writes = new ++ s.writes ∧
        (sysStep fm s' e).writes = new ++ s'.writes := by
  obtain ⟨task, page, pending, speed, encode, speedswitch, steer, params, sensors⟩ := id h
  cases e with
  | key k =>
      by_cases waiting : s.pending = []
      · have resume : uiResume fm s.page k s.task s.panel.params s.panel.sensors =
            uiResume fm s'.page k s'.task s'.panel.params s'.panel.sensors := by
          rw [page, task, params, sensors]
        simp only [sysStep, if_pos waiting, if_pos (pending ▸ waiting : s'.pending = [])]
        exact ⟨⟨congrArg Prod.fst resume, page, congrArg Prod.snd resume, speed, encode,
          speedswitch, steer, params, sensors⟩, [], rfl, rfl⟩
      · simp only [sysStep, if_neg waiting, if_neg (pending ▸ waiting : ¬ s'.pending = [])]
        exact ⟨h, [], rfl, rfl⟩
  | ui =>
      cases next : s.pending with
      | nil =>
          simp only [sysStep, next, ← pending]
          exact ⟨h, [], rfl, rfl⟩
      | cons a rest =>
          simp only [sysStep, next, ← pending]
          have rest' : Agree { s with pending := rest } { s' with pending := rest } :=
            ⟨task, page, rfl, speed, encode, speedswitch, steer, params, sensors⟩
          exact agree_exec fm rest' a
  | tick count =>
      obtain ⟨speed', encode', new, left, right⟩ :=
        agree_onTick fm s.panel.params speed speedswitch count
      simp only [sysStep]
      refine ⟨⟨task, page, pending, ?_, ?_, ?_, steer, params, sensors⟩, new, left, ?_⟩
      · rw [speed', params]
      · rw [encode', params]
      · rw [speedswitch_tick, speedswitch_tick, speedswitch]
      · rw [Sys.writes, ← params, right, Sys.writes]
  | turn =>
      have out : ctrl fm ⟨s.panel.params.streepid, s.panel.sensors.ad3, s.panel.sensors.ad4,
            s.panel.sensors.sumDiff⟩ s.steer =
          ctrl fm ⟨s'.panel.params.streepid, s'.panel.sensors.ad3, s'.panel.sensors.ad4,
            s'.panel.sensors.sumDiff⟩ s'.steer := by
        rw [params, sensors, steer]
      simp only [sysStep, Sys.turn, out]
      exact ⟨⟨task, page, pending, speed, encode, speedswitch, rfl, params, sensors⟩,
        [_], rfl, rfl⟩
  | ad readings =>
      exact ⟨⟨task, page, pending, speed, encode, speedswitch, steer, params, rfl⟩, [], rfl, rfl⟩

/-- Two states that agree see the same writes in every continuation. -/
theorem agree_run {s s' : Sys} (h : Agree s s') (later : List Event) :
    ∃ new, (Trajectory.run (sysStep fm) s later).writes = new ++ s.writes ∧
      (Trajectory.run (sysStep fm) s' later).writes = new ++ s'.writes := by
  refine (run_related (R := fun t t' : Sys => Agree t t' ∧
    ∃ new, t.writes = new ++ s.writes ∧ t'.writes = new ++ s'.writes) ?_ ?_ later).2
  · rintro t t' e ⟨agree, new, left, right⟩
    obtain ⟨agree', more, left', right'⟩ := agree_sysStep fm agree e
    refine ⟨agree', more ++ new, ?_, ?_⟩
    · rw [left', left, List.append_assoc]
    · rw [right', right, List.append_assoc]
  · exact ⟨h, [], rfl, rfl⟩

/-- The UI step of key 3 in `Run_UI`. -/
def startKey : List Event := [.key 3, .ui, .ui, .ui]

/-- What the key does to a state: the controller makes a call, the switch is set, and
nothing is written. -/
theorem run_startKey {s : Sys} (waiting : s.pending = []) (page : s.page = .run) :
    Trajectory.run (sysStep fm) s startKey =
      { s with
        consumed := 3 :: s.consumed
        motor :=
          { s.motor.setSpeed (speedPID fm s.panel.params.speedpid s.panel.params.speed
              (toUnsigned 32 s.motor.encode) s.motor.speed) with speedswitch := 1 }
        panel := { s.panel with oled := oledP6x8Str 0 2 "RUNING".toList s.panel.oled } } := by
  obtain ⟨task, page', consumed, pending, motor, steer, panel⟩ := s
  obtain rfl : pending = [] := waiting
  obtain rfl : page' = .run := page
  rfl

/-- The encoder value of every reachable state is one a period can read. -/
theorem exists_count (clock : ℕ) (flash : Flash) (sensors : Sensors) (es : List Event) :
    ∃ count : ℕ, citerMask - (count &&& 0x7FFF : ℕ) =
      (sysAt fm clock flash sensors es).motor.encode := by
  refine sys_invariant fm
    (P := fun s : Sys => ∃ count : ℕ, citerMask - (count &&& 0x7FFF : ℕ) = s.motor.encode)
    ?_ ?_ ?_ ?_ ?_ ?_ es
  · exact fun s k h _ => h
  · intro s a rest h _
    rw [exec_motor, encode_onMotor]
    exact h
  · exact fun s count _ => ⟨count, (encode_tick fm s.motor _ count).symm⟩
  · exact fun s h => h
  · exact fun s sensors h => h
  · exact ⟨0x7FFF, rfl⟩

/-- **What the start key does while the motor runs.**  At every point of every run at
which `Run_UI` waits with `speedswitch == 1`, one more key 3 leaves the page, the
switch and every PWM output as they are; and the duties written from then on are, for
every sequence of later events, exactly those written after a further period of the
speed task at the last encoder reading. -/
theorem start_key_as_tick (clock : ℕ) (flash : Flash) (sensors : Sensors) (es : List Event) :
    let s := sysAt fm clock flash sensors es
    s.pending = [] → s.page = .run → s.motor.speedswitch = 1 →
      let keyed := Trajectory.run (sysStep fm) s startKey
      (keyed.pending = [] ∧ keyed.page = .run ∧ keyed.motor.speedswitch = 1 ∧
          keyed.motor.pwm = s.motor.pwm) ∧
        (∃ count : ℕ, citerMask - (count &&& 0x7FFF : ℕ) = s.motor.encode) ∧
        ∀ count : ℕ, citerMask - (count &&& 0x7FFF : ℕ) = s.motor.encode →
          let ticked := sysStep fm s (.tick count)
          ∀ later : List Event, ∃ new,
            (Trajectory.run (sysStep fm) keyed later).writes = new ++ s.writes ∧
              (Trajectory.run (sysStep fm) ticked later).writes = new ++ ticked.writes := by
  intro s waiting page on keyed
  have here : keyed = _ := run_startKey fm waiting page
  -- Both sides call the controller on the same arguments; what it returns is immaterial.
  refine ⟨?_, exists_count fm clock flash sensors es, ?_⟩
  · rw [here]
    generalize speedPID fm _ _ _ _ = st
    exact ⟨waiting, page, rfl, rfl⟩
  · intro count reading ticked later
    have on' : s.motor.speedswitch ≠ 0 := by
      rw [on]
      exact one_ne_zero
    have alike : Agree keyed ticked := by
      have there : ticked = { s with motor := s.motor.tick fm s.panel.params count } := rfl
      rw [here, there, tick_on fm on', reading]
      simp only [speedCtrl]
      generalize speedPID fm _ _ _ _ = st
      exact ⟨rfl, rfl, rfl, rfl, rfl, on.symm, rfl, rfl, rfl⟩
    have written : keyed.writes = s.writes := by
      rw [here]
      generalize speedPID fm _ _ _ _ = st
      rfl
    have same := agree_run fm alike later
    rwa [written] at same

/-- The theorem at the end of a start, with one further period to compare. -/
theorem start_key_as_tick_firstStart :
    ∃ new,
      (Trajectory.run (sysStep .cortexM4)
          (Trajectory.run (sysStep .cortexM4)
            (sysAt .cortexM4 50000000 startSector noSensors firstStart) startKey)
          [.tick 0x7FFF]).writes =
        new ++ (sysAt .cortexM4 50000000 startSector noSensors firstStart).writes ∧
      (Trajectory.run (sysStep .cortexM4)
          (sysStep .cortexM4 (sysAt .cortexM4 50000000 startSector noSensors firstStart)
            (.tick 0x7FFF))
          [.tick 0x7FFF]).writes =
        new ++ (sysStep .cortexM4 (sysAt .cortexM4 50000000 startSector noSensors firstStart)
          (.tick 0x7FFF)).writes :=
  (start_key_as_tick .cortexM4 50000000 startSector noSensors firstStart (by decide +kernel)
    (by decide +kernel) (by decide +kernel)).2.2 0x7FFF (by decide +kernel) [.tick 0x7FFF]

/-- With the key the next period writes 1140, without it 950. -/
theorem not_start_key_idempotent :
    let s := sysAt .cortexM4 50000000 startSector noSensors firstStart
    s.motor.speedswitch = 1 ∧ s.page = .run ∧
      (Trajectory.run (sysStep .cortexM4) s (startKey ++ [.tick 0x7FFF])).motor.pwm.ftm0Duty 3 =
        1140 ∧
      (Trajectory.run (sysStep .cortexM4) s [.tick 0x7FFF]).motor.pwm.ftm0Duty 3 = 950 := by
  decide +kernel

end CannonCar
