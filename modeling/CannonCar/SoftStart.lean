import CannonCar.System

/-!
# Soft start

`speedPID` limits how far its output moves from one call to the next, counted from
its own static `SpeedLastPWMK`.  The menu pages write CH3 of FTM0 as well and leave
that static alone, and `Run_UI` calls `speedPID` without writing its output.  So the
limit is one on what the motor sees only where the static has not run ahead of the
channel: `softStart_of_guarded` is the soft start under this condition on the periods
of the speed task, `softTick_sharp` says that none weaker will do, and
`not_softStart_restart` is a restart that violates it.

## Why the limit is stated with a condition

A counterexample to the unconditional limit needs no unusual gains and no timing: run, stop,
go back to the menu, start again.  `SoftTick` is a condition on the state a period finds, and
`softTick_sharp` turns it round: from a state that violates it, gains and a reading are
constructed with which the very next period breaks the limit.  So the guard of
`softStart_of_guarded` cannot be replaced by a weaker one on the state.  Particular runs
outside of it may still keep the limit, because their gains ask for little.
-/

namespace CannonCar

open MachineInt Trajectory

/-- No CH3 duty written by `speedCtrl` exceeds the one written before it by more than
`KWPLUSMAX`. -/
def SoftStart : List PwmWrite → Prop
  | [] => True
  | w :: older =>
      (w.writer = .speedCtrl ∧ w.ftm = 0 ∧ w.chl = 3 →
        (w.duty : ℤ) ≤ lastDuty 0 3 older + kwPlusMax) ∧ SoftStart older

instance decidableSoftStart : (log : List PwmWrite) → Decidable (SoftStart log)
  | [] => isTrue trivial
  | w :: older =>
      have := decidableSoftStart older
      inferInstanceAs (Decidable ((w.writer = .speedCtrl ∧ w.ftm = 0 ∧ w.chl = 3 →
        (w.duty : ℤ) ≤ lastDuty 0 3 older + kwPlusMax) ∧ SoftStart older))

/-- Other writers are not limited. -/
theorem SoftStart.cons_other {log : List PwmWrite} (h : SoftStart log) {writer : PwmWriter}
    (other : writer ≠ .speedCtrl) (ftm chl duty : ℕ) :
    SoftStart (⟨writer, ftm, chl, duty⟩ :: log) :=
  ⟨fun w => absurd w.1 other, h⟩

/-- The controller's memory is not ahead of the channel, or the channel is within one
increment of the largest output. -/
def Motor.InStep (m : Motor) : Prop :=
  m.speed.speedLastPWMK ≤ m.pwm.ftm0Duty 3 ∨ kouPlusMax - kwPlusMax ≤ m.pwm.ftm0Duty 3

instance (m : Motor) : Decidable m.InStep := inferInstanceAs (Decidable (_ ∨ _))

/-- The condition on a period of the speed task that writes. -/
def SoftTick (s : Sys) : Event → Prop
  | .tick _ => s.motor.speedswitch ≠ 0 → s.motor.InStep
  | _ => True

instance (s : Sys) : ∀ e, Decidable (SoftTick s e)
  | .tick _ => inferInstanceAs (Decidable (s.motor.speedswitch ≠ 0 → s.motor.InStep))
  | .key _ => isTrue trivial
  | .ui => isTrue trivial
  | .turn => isTrue trivial
  | .ad _ => isTrue trivial

variable (fm : FloatModel)

/-- The duty of a call is at most one increment above the accumulator. -/
theorem duty_speedPID_le {st : SpeedState} (ok : st.Ok) (speedpid : PID) (speed nowValue : ℤ) :
    (speedDuty (speedPID fm speedpid speed nowValue st).result : ℤ) ≤
      min (st.speedLastPWMK + kwPlusMax) kouPlusMax := by
  have ok' := ok_speedPID fm speedpid speed nowValue st
  have slew := (abs_le.mp (slew_speedPID fm ok speedpid speed nowValue)).2
  obtain ⟨-, -, value⟩ := speedDuty_of_ok ok'
  rw [value, ok'.result_eq]
  exact le_min (by linarith) ok'.le

theorem ok_onMotor {m : Motor} (ok : m.speed.Ok) (ps : Params) (a : UIAction) :
    (a.onMotor fm ps m).speed.Ok := by
  cases a with
  | speedPID => exact ok_speedPID fm _ _ _ _
  | _ => exact ok

theorem softStart_onMotor {m : Motor} (h : SoftStart m.pwm.writes) (ps : Params)
    (a : UIAction) : SoftStart (a.onMotor fm ps m).pwm.writes := by
  cases a with
  | changeDuty chl duty => exact h.cons_other (by decide) 0 chl duty
  | speedPID => rwa [UIAction.onMotor_speedPID, Motor.setSpeed_pwm]
  | _ => exact h

theorem ok_tick {m : Motor} (ok : m.speed.Ok) (ps : Params) (count : ℕ) :
    (m.tick fm ps count).speed.Ok := by
  unfold Motor.tick
  dsimp only
  split_ifs
  · exact ok_speedPID fm _ _ _ _
  · exact ok

/-- A period that meets the condition keeps the soft start. -/
theorem softStart_tick {m : Motor} (ok : m.speed.Ok) (h : SoftStart m.pwm.writes)
    (guard : m.speedswitch ≠ 0 → m.InStep) (ps : Params) (count : ℕ) :
    SoftStart (m.tick fm ps count).pwm.writes := by
  unfold Motor.tick
  dsimp only
  split_ifs with on
  · refine ⟨fun w => absurd w.2.2 (by decide), fun _ => ?_, h⟩
    have le := duty_speedPID_le fm ok ps.speedpid ps.speed
      (toUnsigned 32 (citerMask - (count &&& 0x7FFF : ℕ)))
    obtain ⟨step, top⟩ := le_min_iff.mp le
    rcases guard on with behind | high
    · exact step.trans (add_le_add_left behind kwPlusMax)
    · have high' : kouPlusMax ≤ m.pwm.ftm0Duty 3 + kwPlusMax := by linarith
      exact top.trans high'
  · exact h

/-- **Soft start, where it holds.**  In every run from `speedInit` all of whose writing
periods find the controller's memory in step with the channel, every CH3 duty written
by `speedCtrl` exceeds the duty most recently written to that channel by at most
`KWPLUSMAX`. -/
theorem softStart_of_guarded (clock : ℕ) (flash : Flash) (sensors : Sensors) (es : List Event)
    (guarded : Guarded SoftTick (sysStep fm) (boot fm clock flash sensors) es) :
    SoftStart (sysAt fm clock flash sensors es).motor.pwm.writes := by
  have start : SoftStart (boot fm clock flash sensors).motor.pwm.writes := by
    simp [boot, Pwm.speedInit, Pwm.quickInit, Pwm.reset, SoftStart]
  refine (run_invariant_of_guarded
    (I := fun s : Sys => s.motor.speed.Ok ∧ SoftStart s.motor.pwm.writes)
    ?_ ⟨SpeedState.ok_init, start⟩ guarded).2
  rintro s e ⟨ok, soft⟩ guard
  rcases sysStep_cases fm s e with
    same | ⟨k, -, eq⟩ | ⟨a, rest, -, eq⟩ | ⟨count, rfl, eq⟩ | eq | ⟨sensors, eq⟩
  · rw [same]
    exact ⟨ok, soft⟩
  · rw [eq]
    exact ⟨ok, soft⟩
  · rw [eq]
    exact ⟨ok_onMotor fm ok s.panel.params a, softStart_onMotor fm soft s.panel.params a⟩
  · rw [eq]
    exact ⟨ok_tick fm ok _ count, softStart_tick fm ok soft guard _ count⟩
  · rw [eq]
    exact ⟨ok, soft.cons_other (by decide) 1 1 _⟩
  · rw [eq]
    exact ⟨ok, soft⟩

/-- A start: the menu comes up, key 3 enters `Run_UI` and starts the motor, and three
periods follow. -/
def firstStart : List Event :=
  List.flatten
    [uiSteps 12, [.key 3], uiSteps 7, [.key 3], uiSteps 3, List.replicate 3 (.tick 0x7FFF)]

/-- A stop and a restart: key 4, key 3 in the menu, key 3 in `Run_UI`, and one period. -/
def stopAndStart : List Event :=
  List.flatten [[.key 4], uiSteps 17, [.key 3], uiSteps 7, [.key 3], uiSteps 3, [.tick 0x7FFF]]

/-- A sector with `Speed_P` 1.0 and `Speed` 999, as the editor can leave it. -/
def startSector : Flash := fun a =>
  if a = sectorNum * flashSectorSize then 10
  else if a = sectorNum * flashSectorSize + 24 then 999
  else 0

theorem softStart_firstStart :
    SoftStart
      (sysAt .cortexM4 50000000 startSector noSensors firstStart).motor.pwm.writes :=
  softStart_of_guarded .cortexM4 50000000 startSector noSensors firstStart (by decide +kernel)

/-- The first write after the restart jumps from 500 to 1330. -/
theorem not_softStart_restart :
    let log := (sysAt .cortexM4 50000000 startSector noSensors
      (firstStart ++ stopAndStart)).motor.pwm.writes
    lastDuty 0 3 log = 1330 ∧ lastDuty 0 3 (log.drop 2) = 500 ∧ ¬ SoftStart log := by
  decide +kernel

/-- **No weaker condition will do.**  In a state whose memory is out of step with the
channel there are gains and a reading under which the next period breaks the limit. -/
theorem softTick_sharp (rounds : fm.Rounds) {m : Motor} (ok : m.speed.Ok)
    (out : ¬ m.InStep) :
    ∃ (speedpid : PID) (speed nowValue : ℤ),
      (m.pwm.ftm0Duty 3 : ℤ) + kwPlusMax <
        speedDuty (speedPID fm speedpid speed nowValue m.speed).result := by
  -- A proportional gain of one and an error of `KWPLUSMAX` ask for the largest step.
  have ok' := ok_speedPID fm ⟨1, 0, 0⟩ 190 0 m.speed
  have full : fm.rnd 190 = ((190 : ℤ) : ℚ) := by
    have h := rounds.rnd_intCast 190 (by norm_num)
    rwa [show ((190 : ℤ) : ℚ) = 190 by norm_num] at h ⊢
  have none : fm.toI16 0 = 0 := by
    have fits : FitsSigned 16 (FloatModel.trunc 0) := by decide
    rw [FloatModel.toI16, if_pos fits]
    rfl
  have most : fm.toI16 ((190 : ℤ) : ℚ) = 190 := by
    have fits : FitsSigned 16 (FloatModel.trunc ((190 : ℤ) : ℚ)) := by
      rw [FloatModel.trunc_intCast]
      decide
    rw [FloatModel.toI16, if_pos fits, FloatModel.trunc_intCast]
  have terms : speedTerms fm ⟨1, 0, 0⟩ 190 0 m.speed = ⟨190, 0, 0⟩ := by
    have error : toSigned 16 (toSigned 16 190 - toSigned 16 0) = 190 := by decide
    simp only [speedTerms, error, zero_mul, one_mul, rounds.rnd_zero, none]
    rw [show ((190 : ℤ) : ℚ) = 190 by norm_num, full, most]
    rfl
  have next := speedLastPWMK_speedPID fm ok ⟨1, 0, 0⟩ 190 0
  have increment : SpeedTerms.speedPWMK ⟨190, 0, 0⟩ = 190 := by decide
  obtain ⟨-, -, value⟩ := speedDuty_of_ok ok'
  rw [terms, increment] at next
  refine ⟨⟨1, 0, 0⟩, 190, 0, ?_⟩
  rw [value, ok'.result_eq, next]
  have low := ok.nonneg
  unfold Motor.InStep kouPlusMax kwPlusMax at out
  unfold clampOut kouPlusMax kwPlusMax
  split_ifs <;> omega

end CannonCar
