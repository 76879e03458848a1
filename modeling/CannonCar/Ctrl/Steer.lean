import CannonCar.Foundation.Latch
import CannonCar.FlashUi
import CannonCar.Ftm

/-!
# The steering controller

`streePID` and `ctrl` of `work/CTRL/ctrl.c`, one tick of `TurnStartTask`.

A tick reads one snapshot of the sensors.  Three guards on the two outer coils
overlap: the controller runs when both read at least 50, the line-loss flag `spe` is
cleared when both read at least 200 and set when one reads below 60.  A set flag
overrides the controller with one of two fixed servo positions.

The flag is a latch in the sense of `Foundation.Latch` — a reading of 200 and one of
60 cannot be the same reading, so recovery and loss exclude each other — and
`spe_ctrl` says that `ctrl` moves `spe` as the latch moves.

## Main results

* `spe_steerAt` — `ctrl` implements the latch.
* `spe_history` — what `spe` is after any history of readings.
* `ctrl_fresh` — the duty written in a tick is one of the two fixed positions or the
  `resultturn` this very tick has computed, whatever `resultturn` held before.

## What is load-bearing

**A snapshot for each tick.**  The readings a tick works on are the fields of one
`SteerInput`.  `sumDiff` is a field of its own and is not assumed to be `ad3 - ad4`; where it
has to be, a hypothesis says so.

**The order of the three guards.**  The controller comes first and the flag is looked at last,
so that a tick can compute a turn and not use it.  One with a reading from 50 to 59 does so,
and its fit goes into `error[1]` all the same: the derivative term of a later tick works on a
reading of which nothing has been seen at the servo.
-/

namespace CannonCar

open MachineInt Trajectory Foundation

/-- `MEDIAN`, the servo's middle position. -/
def median : ℤ := 4600

/-- The globals of `ctrl.c` that steering reads and writes. -/
structure SteerState where
  /-- `error[0]`. -/
  error0 : ℚ
  /-- `error[1]`. -/
  error1 : ℚ
  resultturn : ℤ
  oldResulturn : ℤ
  /-- The line-loss flag: 1 left, 2 right. -/
  spe : ℤ

/-- Globals start at zero. -/
def SteerState.init : SteerState := ⟨0, 0, 0, 0, 0⟩

/-- What a tick of `ctrl` reads: the gains and one snapshot of the sensors. -/
structure SteerInput where
  streepid : PID
  ad3 : ℤ
  ad4 : ℤ
  /-- `float sum_diff`. -/
  sumDiff : ℚ

/-- The calls a tick makes. -/
structure SteerCalls where
  /-- The argument of `streePID`, if it is called. -/
  streePID : Option ℤ
  /-- The duty passed to `FTM_PWM_ChangeDuty(HW_FTM1, HW_FTM_CH1, .)`. -/
  changeDuty : ℕ
  deriving DecidableEq

variable (fm : FloatModel)

/-! ## `streePID` -/

/-- The fitted quartic of `streePID`, as assigned to `int x`. -/
def streeFit (nowValue : ℤ) : ℤ :=
  let p1 := fm.rnd (-fm.rndD (2492 / 10000))
  let p2 := fm.rnd (fm.rndD (9905 / 10000))
  let p3 := fm.rnd (fm.rndD (1248 / 10))
  let p4 := fm.rnd (-fm.rndD (4071 / 100))
  let n := fm.rnd nowValue
  let t4 := fm.rnd (fm.rnd (fm.rnd (fm.rnd (p1 * n) * n) * n) * n)
  let t3 := fm.rnd (fm.rnd (fm.rnd (p2 * n) * n) * n)
  let t2 := fm.rnd (fm.rnd (p3 * n) * n)
  fm.toI32 (fm.rnd (fm.rnd (fm.rnd (t4 + t3) + t2) + p4))

/-- A gain scaled down: `g*0.01`, computed in `double`. -/
def streeGain (g : ℚ) : ℚ := fm.rnd (fm.rndD (g * fm.rndD (1 / 100)))

/-- `streePID(nowValue)`. -/
def streePID (streepid : PID) (nowValue : ℤ) (st : SteerState) : SteerState :=
  let x := streeFit fm nowValue
  let error0 := fm.rnd x
  let kpvalue := fm.toI32 (fm.rnd (streeGain fm streepid.p * error0))
  let kdvalue := fm.toI32 (fm.rnd (streeGain fm streepid.d * fm.rnd (error0 - st.error1)))
  { st with
    error0 := error0
    error1 := error0
    resultturn := toSigned 32 (median + kpvalue + kdvalue) }

/-! ## `ctrl` -/

/-- Both outer coils see the line well enough to steer by. -/
def SteerInput.Steers (r : SteerInput) : Prop := 50 ≤ r.ad3 ∧ 50 ≤ r.ad4

instance (r : SteerInput) : Decidable r.Steers := inferInstanceAs (Decidable (_ ∧ _))

/-- Both outer coils see the line well enough to end a line loss. -/
def SteerInput.Recovered (r : SteerInput) : Prop := 200 ≤ r.ad3 ∧ 200 ≤ r.ad4

instance (r : SteerInput) : Decidable r.Recovered := inferInstanceAs (Decidable (_ ∧ _))

/-- One of the outer coils has lost the line. -/
def SteerInput.Lost (r : SteerInput) : Prop := r.ad3 < 60 ∨ r.ad4 < 60

instance (r : SteerInput) : Decidable r.Lost := inferInstanceAs (Decidable (_ ∨ _))

/-- The three conditional assignments to `spe`, in order. -/
def ctrlSpe (r : SteerInput) (spe : ℤ) : ℤ :=
  let spe := if r.Recovered then 0 else spe
  let spe := if r.ad3 < 60 then (if spe = 0 then 1 else spe) else spe
  if r.ad4 < 60 then (if spe = 0 then 2 else spe) else spe

/-- `ctrl`, with the calls it makes. -/
def ctrl (r : SteerInput) (st : SteerState) : SteerState × SteerCalls :=
  let argument := fm.toI32 r.sumDiff
  let st := if r.Steers then streePID fm r.streepid argument st else st
  let spe := ctrlSpe r st.spe
  let resultturn :=
    if spe = 1 then median - 900
    else if spe = 2 then median + 1000
    else st.resultturn
  ({ st with spe := spe, resultturn := resultturn, oldResulturn := resultturn },
    { streePID := if r.Steers then some argument else none
      changeDuty := toUnsigned 32 resultturn })

/-- The system whose inputs are the ticks of `TurnStartTask`. -/
def steerStep (st : SteerState) (r : SteerInput) : SteerState := (ctrl fm r st).1

/-- The steering globals before tick `t`. -/
def steerAt (inputs : ℕ → SteerInput) (t : ℕ) : SteerState :=
  orbit (steerStep fm) SteerState.init inputs t

/-- The calls of tick `t`. -/
def steerCalls (inputs : ℕ → SteerInput) (t : ℕ) : SteerCalls :=
  (ctrl fm (inputs t) (steerAt fm inputs t)).2

theorem steerAt_succ (inputs : ℕ → SteerInput) (t : ℕ) :
    steerAt fm inputs (t + 1) = (ctrl fm (inputs t) (steerAt fm inputs t)).1 := rfl

/-! ## The line-loss latch -/

/-- The side on which the line was lost. -/
inductive LossSide
  | left
  | right
  deriving DecidableEq, Repr

/-- The line-loss flag as a latch: recovery empties it, and a lost line records the
side, the left one when both coils have lost it. -/
def lossLatch : Latch SteerInput LossSide where
  reset := SteerInput.Recovered
  trigger r :=
    if r.ad3 < 60 then some .left
    else if r.ad4 < 60 then some .right
    else none
  exclusive := by
    intro r hrecovered
    obtain ⟨h3, h4⟩ := hrecovered
    rw [if_neg (by omega), if_neg (by omega)]

instance : DecidablePred lossLatch.reset :=
  fun r => inferInstanceAs (Decidable r.Recovered)

/-- The encoding of the latch in `spe`. -/
def speOf : Option LossSide → ℤ
  | none => 0
  | some .left => 1
  | some .right => 2

theorem speOf_mem (s : Option LossSide) : speOf s = 0 ∨ speOf s = 1 ∨ speOf s = 2 := by
  rcases s with _ | _ | _
  · exact Or.inl rfl
  · exact Or.inr (Or.inl rfl)
  · exact Or.inr (Or.inr rfl)

/-- The assignments to `spe` are one step of the latch. -/
theorem ctrlSpe_speOf (r : SteerInput) (s : Option LossSide) :
    ctrlSpe r (speOf s) = speOf (lossLatch.step s r) := by
  by_cases hrecovered : r.Recovered
  · rw [lossLatch.step_reset hrecovered]
    obtain ⟨h3, h4⟩ := id hrecovered
    simp only [ctrlSpe, if_pos hrecovered, speOf]
    rw [if_neg (by omega), if_neg (by omega)]
  · cases s with
    | some side =>
        rw [lossLatch.step_some hrecovered]
        cases side <;> simp [ctrlSpe, speOf, hrecovered]
    | none =>
        rw [lossLatch.step_none]
        simp only [ctrlSpe, if_neg hrecovered, speOf, lossLatch]
        split_ifs <;> simp_all

/-- `streePID` leaves the flag alone. -/
@[simp] theorem spe_streePID (streepid : PID) (nowValue : ℤ) (st : SteerState) :
    (streePID fm streepid nowValue st).spe = st.spe := rfl

theorem spe_ctrl (r : SteerInput) (st : SteerState) :
    (ctrl fm r st).1.spe = ctrlSpe r st.spe := by
  unfold ctrl
  by_cases hsteers : r.Steers
  · simp [hsteers]
  · simp [hsteers]

/-- **`ctrl` implements the latch.** -/
theorem spe_steerAt (inputs : ℕ → SteerInput) (t : ℕ) :
    (steerAt fm inputs t).spe = speOf (lossLatch.stateAt inputs t) := by
  induction t with
  | zero => rfl
  | succ t ih => rw [steerAt_succ, spe_ctrl, ih, ctrlSpe_speOf, lossLatch.stateAt_succ]

theorem spe_ne_zero_iff (inputs : ℕ → SteerInput) (t : ℕ) :
    (steerAt fm inputs t).spe ≠ 0 ↔ ∃ side, lossLatch.stateAt inputs t = some side := by
  rw [spe_steerAt]
  rcases lossLatch.stateAt inputs t with _ | _ | _ <;> simp [speOf]

theorem trigger_eq_none_iff (r : SteerInput) : lossLatch.trigger r = none ↔ ¬ r.Lost := by
  simp only [lossLatch, SteerInput.Lost]
  split_ifs <;> simp_all

/-- **The line-loss flag is decided by the history of the readings.**  Along every
infinite sequence of ticks from `spe == 0`: the flag is 0, 1 or 2; a set flag stays
until the first later tick in which both coils read at least 200, which clears it;
looking back to the last recovery, or to the start, the first tick with a reading
below 60 decides the flag, 1 if `ad3` is below 60 in it and 2 otherwise, and without
such a tick it is 0; and it never changes sides without being 0 in between. -/
theorem spe_history (inputs : ℕ → SteerInput) :
    let spe := fun t => (steerAt fm inputs t).spe
    (∀ t, spe t = 0 ∨ spe t = 1 ∨ spe t = 2) ∧
      (∀ t k, spe t ≠ 0 → (∀ i, t ≤ i → i < t + k → ¬ (inputs i).Recovered) →
        spe (t + k) = spe t) ∧
      (∀ t, (inputs t).Recovered → spe (t + 1) = 0) ∧
      (∀ t, ∃ r, lossLatch.Since inputs r t) ∧
      (∀ r t, lossLatch.Since inputs r t →
        (∀ j, r ≤ j → j < t → (inputs j).Lost → (∀ i, r ≤ i → i < j → ¬ (inputs i).Lost) →
          spe t = if (inputs j).ad3 < 60 then 1 else 2) ∧
        ((∀ j, r ≤ j → j < t → ¬ (inputs j).Lost) → spe t = 0)) ∧
      ∀ t t', t < t' → spe t ≠ 0 → spe t' ≠ 0 → spe t ≠ spe t' →
        ∃ m, t < m ∧ m < t' ∧ spe m = 0 := by
  intro spe
  have latch : ∀ t, spe t = speOf (lossLatch.stateAt inputs t) := spe_steerAt fm inputs
  refine ⟨?_, ?_, ?_, lossLatch.exists_since inputs, ?_, ?_⟩
  · intro t
    rw [latch]
    exact speOf_mem _
  · intro t k set quiet
    obtain ⟨side, hside⟩ := (spe_ne_zero_iff fm inputs t).mp set
    rw [latch, latch, hside, lossLatch.stateAt_hold hside k quiet]
  · intro t hrecovered
    rw [latch, lossLatch.stateAt_succ, lossLatch.step_reset hrecovered]
    rfl
  · intro r t since
    constructor
    · intro j hj hjt lost first
      have silent : ∀ i, r ≤ i → i < j → lossLatch.trigger (inputs i) = none :=
        fun i hi hij => (trigger_eq_none_iff _).mpr (first i hi hij)
      by_cases h3 : (inputs j).ad3 < 60
      · have now : lossLatch.trigger (inputs j) = some .left := if_pos h3
        rw [latch, lossLatch.stateAt_eq_trigger since hj hjt silent now, if_pos h3]
        rfl
      · have h4 : (inputs j).ad4 < 60 := lost.resolve_left h3
        have now : lossLatch.trigger (inputs j) = some .right := by
          simp [lossLatch, h3, h4]
        rw [latch, lossLatch.stateAt_eq_trigger since hj hjt silent now, if_neg h3]
        rfl
    · intro silent
      rw [latch, lossLatch.stateAt_eq_none since t since.le
        fun i hi hit => (trigger_eq_none_iff _).mpr (silent i hi hit)]
      rfl
  · intro t t' lt set set' ne
    obtain ⟨side, hside⟩ := (spe_ne_zero_iff fm inputs t).mp set
    obtain ⟨side', hside'⟩ := (spe_ne_zero_iff fm inputs t').mp set'
    have changed : side ≠ side' := by
      rintro rfl
      exact ne (by rw [latch, latch, hside, hside'])
    obtain ⟨m, hm, hmt, empty⟩ := lossLatch.exists_empty_between hside hside' lt changed
    exact ⟨m, hm, hmt, by rw [latch, empty]; rfl⟩

/-! ## Freshness of the servo command -/

/-- A tick that leaves the latch empty has seen the line with both coils. -/
theorem not_lost_of_step_none {s : Option LossSide} {r : SteerInput}
    (empty : lossLatch.step s r = none) : ¬ r.Lost := by
  rw [← trigger_eq_none_iff]
  by_cases hreset : lossLatch.reset r
  · exact lossLatch.exclusive r hreset
  · cases s with
    | none => rwa [lossLatch.step_none] at empty
    | some side =>
        rw [lossLatch.step_some hreset] at empty
        cases empty

/-- The controller's guard is weaker than the one that declares a loss. -/
theorem SteerInput.steers_of_not_lost {r : SteerInput} (seen : ¬ r.Lost) : r.Steers := by
  simp only [SteerInput.Lost, not_or, not_lt] at seen
  exact ⟨by omega, by omega⟩

theorem resultturn_ctrl (r : SteerInput) (st : SteerState) :
    (ctrl fm r st).1.resultturn =
      if ctrlSpe r st.spe = 1 then median - 900
      else if ctrlSpe r st.spe = 2 then median + 1000
      else if r.Steers then (streePID fm r.streepid (fm.toI32 r.sumDiff) st).resultturn
      else st.resultturn := by
  unfold ctrl
  by_cases steers : r.Steers
  · simp [steers]
  · simp [steers]

/-- What a tick passes to the servo, case by case on the flag it leaves. -/
theorem ctrl_duty (r : SteerInput) (st : SteerState) (hspe : ∃ s, st.spe = speOf s) :
    ((ctrl fm r st).1.spe = 1 ∧ (ctrl fm r st).2.changeDuty = 3700) ∨
      ((ctrl fm r st).1.spe = 2 ∧ (ctrl fm r st).2.changeDuty = 5600) ∨
      ((ctrl fm r st).1.spe = 0 ∧ ¬ r.Lost ∧
        (ctrl fm r st).2.streePID = some (fm.toI32 r.sumDiff) ∧
        (ctrl fm r st).2.changeDuty =
          toUnsigned 32 (streePID fm r.streepid (fm.toI32 r.sumDiff) st).resultturn) := by
  obtain ⟨s, hs⟩ := hspe
  have flag : (ctrl fm r st).1.spe = speOf (lossLatch.step s r) := by
    rw [spe_ctrl, hs, ctrlSpe_speOf]
  have flag' : ctrlSpe r st.spe = speOf (lossLatch.step s r) := by rw [← spe_ctrl fm, flag]
  rcases hnext : lossLatch.step s r with _ | _ | _
  · rw [hnext] at flag flag'
    have seen : ¬ r.Lost := not_lost_of_step_none hnext
    have steers : r.Steers := SteerInput.steers_of_not_lost seen
    refine Or.inr (Or.inr ⟨flag, seen, ?_, ?_⟩)
    · simp [ctrl, steers]
    · simp [ctrl, steers, flag', speOf]
  · rw [hnext] at flag flag'
    refine Or.inl ⟨flag, ?_⟩
    by_cases steers : r.Steers <;> simp [ctrl, steers, flag', speOf, median] <;> rfl
  · rw [hnext] at flag flag'
    refine Or.inr (Or.inl ⟨flag, ?_⟩)
    by_cases steers : r.Steers <;> simp [ctrl, steers, flag', speOf, median] <;> rfl

/-- What `resultturn` held before a tick does not show in the duty. -/
theorem changeDuty_congr (r : SteerInput) {st : SteerState} (hspe : ∃ s, st.spe = speOf s)
    (stale : ℤ) :
    (ctrl fm r { st with resultturn := stale }).2.changeDuty = (ctrl fm r st).2.changeDuty := by
  have duty : ∀ st : SteerState, (ctrl fm r st).2.changeDuty =
      toUnsigned 32 (ctrl fm r st).1.resultturn := fun _ => rfl
  obtain ⟨s, hs⟩ := hspe
  have flag : ctrlSpe r st.spe = speOf (lossLatch.step s r) := by rw [hs, ctrlSpe_speOf]
  rw [duty, duty, resultturn_ctrl, resultturn_ctrl, flag]
  cases hnext : lossLatch.step s r with
  | none =>
      have steers : r.Steers := SteerInput.steers_of_not_lost (not_lost_of_step_none hnext)
      rw [if_pos steers, if_pos steers]
      rfl
  | some side => cases side <;> rfl

/-- **`ctrl` never outputs a stale command.**  In every tick of every run the duty
written is `MEDIAN-900` when the tick leaves `spe == 1`, `MEDIAN+1000` when it leaves
`spe == 2`, and otherwise `spe == 0`, `streePID(sum_diff)` has been called in this
very tick, and the duty is the `resultturn` that call computed.  Whatever `resultturn`
held before the tick, the duty is the same. -/
theorem ctrl_fresh (inputs : ℕ → SteerInput) (t : ℕ) :
    let st := steerAt fm inputs t
    let spe := (steerAt fm inputs (t + 1)).spe
    let calls := steerCalls fm inputs t
    let argument := fm.toI32 (inputs t).sumDiff
    ((spe = 1 ∧ (calls.changeDuty : ℤ) = median - 900) ∨
      (spe = 2 ∧ (calls.changeDuty : ℤ) = median + 1000) ∨
      (spe = 0 ∧ calls.streePID = some argument ∧
        calls.changeDuty =
          toUnsigned 32 (streePID fm (inputs t).streepid argument st).resultturn)) ∧
      ∀ stale : ℤ,
        (ctrl fm (inputs t) { st with resultturn := stale }).2.changeDuty = calls.changeDuty := by
  intro st spe calls argument
  have reachable : ∃ s, st.spe = speOf s := ⟨_, spe_steerAt fm inputs t⟩
  refine ⟨?_, changeDuty_congr fm (inputs t) reachable⟩
  rcases ctrl_duty fm (inputs t) st reachable with
    ⟨hspe, hduty⟩ | ⟨hspe, hduty⟩ | ⟨hspe, -, hcall, hduty⟩
  · exact Or.inl ⟨hspe, congrArg Nat.cast hduty⟩
  · exact Or.inr (Or.inl ⟨hspe, congrArg Nat.cast hduty⟩)
  · exact Or.inr (Or.inr ⟨hspe, hcall, hduty⟩)

/-- Both coils at 1000 after a tick with the right one at 55: the flag, which that tick has
set, is cleared, and the duty is computed anew instead of staying at `MEDIAN+1000`. -/
theorem ctrl_fresh_recovered :
    let inputs : ℕ → SteerInput := fun t =>
      if t = 0 then ⟨⟨20, 0, 0⟩, 1000, 55, 945⟩ else ⟨⟨20, 0, 0⟩, 1000, 1000, 0⟩
    (steerCalls .exact inputs 0).changeDuty = 5600 ∧
      (steerCalls .exact inputs 1).streePID = some 0 ∧
      (steerCalls .exact inputs 1).changeDuty = 4592 ∧
      ∀ stale : ℤ, (ctrl .exact (inputs 1)
        { steerAt .exact inputs 1 with resultturn := stale }).2.changeDuty = 4592 := by
  intro inputs
  obtain ⟨cases, independent⟩ := ctrl_fresh .exact inputs 1
  have flag : (steerAt .exact inputs 2).spe = 0 := by decide +kernel
  have duty : (steerCalls .exact inputs 1).changeDuty = 4592 := by decide +kernel
  have argument : FloatModel.exact.toI32 (inputs 1).sumDiff = 0 := by decide +kernel
  rcases cases with ⟨left, -⟩ | ⟨right, -⟩ | ⟨-, called, -⟩
  · exact absurd (left.symm.trans flag) (by decide)
  · exact absurd (right.symm.trans flag) (by decide)
  · rw [argument] at called
    exact ⟨by decide +kernel, called, duty, fun stale => (independent stale).trans duty⟩

end CannonCar
