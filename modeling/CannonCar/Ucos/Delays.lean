import CannonCar.Ucos.Frames

/-!
# Delays

`OSTimeTick` goes through the list of tasks and counts every delay down by one; it stops at
the idle task, which is the last one.  A task that has called `OSTimeDly` is therefore ready
again after exactly as many ticks as it has asked for, whatever else happens, unless it is
deleted or somebody calls `OSTimeDlyResume` for it.

## What is load-bearing

* Ticks are counted along a run as its outputs (`Kernel.ticks`), so that "before the `n`th
  tick" is a sum over the run.
* `Sleeps n k i` says that `n` ticks are left.  A tick takes one off, another step none, unless
  it is one that `Undisturbed` excludes: deleting the task, or ending its delay early.
* Suspending is not excluded.  A task that is suspended when its delay runs out stays where it
  is, and the statement says so.
* `OSTimeDly` does nothing with the scheduler locked, in an interrupt, or for 0 ticks; the
  first two are hypotheses here and the third is `n ≠ 0`.
* A tick is one step, with every task counted once in it.
-/

namespace CannonCar

namespace Ucos

open TwoLevel Trajectory

variable {k k' : Kernel} {i j : TcbId} {n : ℕ}

/-! ### One tick -/

/-- The control block of a task after a tick. -/
def Tcb.ticked (t : Tcb) : Tcb :=
  if t.OSTCBDly ≠ 0 then
    if t.OSTCBDly - 1 = 0 then t.expired else { t with OSTCBDly := t.OSTCBDly - 1 }
  else t

theorem tickTcb_tcb (k : Kernel) (j : TcbId) :
    (k.tickTcb j).OSTCBTbl = Function.update k.OSTCBTbl j (k.OSTCBTbl j).ticked := by
  unfold Kernel.tickTcb Tcb.ticked
  simp only
  split_ifs
  · rw [dlyExpired_eq k j rfl]
  · rfl
  · rw [Function.update_eq_self]

/-- The loop of `OSTimeTick` counts each of its tasks once. -/
theorem foldl_tickTcb_tcb {l : List TcbId} (distinct : l.Nodup) (k : Kernel) (i : TcbId) :
    (l.foldl Kernel.tickTcb k).OSTCBTbl i =
      if i ∈ l then (k.OSTCBTbl i).ticked else k.OSTCBTbl i := by
  induction l generalizing k with
  | nil => rfl
  | cons j l ih =>
      obtain ⟨absent, rest⟩ := List.nodup_cons.mp distinct
      rw [List.foldl_cons, ih rest, tickTcb_tcb, Function.update_apply]
      by_cases here : i = j
      · subst here
        rw [if_neg absent, if_pos rfl, if_pos List.mem_cons_self]
      · have same : i ∈ j :: l ↔ i ∈ l := by simp [here]
        rw [if_neg here, if_congr same rfl rfl]

/-- The tasks before the idle task are all the others. -/
theorem Consistent.takeWhile_list (c : Consistent k) :
    ∃ idle, k.OSTCBPrioTbl osTaskIdlePrio = .tcb idle ∧ (k.OSTCBTbl idle).Runnable ∧
      k.OSTCBList = (k.OSTCBList.takeWhile fun ptcb =>
        (k.OSTCBTbl ptcb).OSTCBPrio ≠ osTaskIdlePrio) ++ [idle] := by
  obtain ⟨idle, front, here, runs, -, list⟩ := c.live.idle
  refine ⟨idle, here, runs, ?_⟩
  have distinct := (List.nodup_append'.mp c.sound.pool).1
  have others : ∀ j ∈ front, decide ((k.OSTCBTbl j).OSTCBPrio ≠ osTaskIdlePrio) = true := by
    intro j mem
    refine decide_eq_true fun prio => ?_
    have there := c.sound.listed j (by rw [list]; exact List.mem_append_left _ mem)
    rw [prio, here, Slot.tcb.injEq] at there
    rw [list] at distinct
    exact (List.nodup_append'.mp distinct).2.2 (there ▸ mem) List.mem_cons_self
  rw [list, List.takeWhile_append_of_pos others]
  simp [(c.sound.slot _ _ here).2.1]

/-- **A tick counts every delay once**: the task that is on no wait list and is not the
idle task has one tick less to wait. -/
theorem Consistent.tcb_osTimeTick (c : Consistent k) (nested : 0 < k.OSIntNesting)
    (mem : i ∈ k.OSTCBList) (free : ∀ e, ¬ (k.OSTCBTbl i).Registered e)
    (delayed : (k.OSTCBTbl i).OSTCBDly ≠ 0) :
    k.osTimeTick.OSTCBTbl i = (k.OSTCBTbl i).ticked := by
  have hook := c.sound.wakes_osTimeTickHook nested
  have same : k.osTimeTickHook.OSTCBTbl i = k.OSTCBTbl i := hook.spares i free False.elim
  obtain ⟨idle, here, runs, list⟩ := c.takeWhile_list
  have prios : (k.osTimeTickHook.OSTCBList.takeWhile fun ptcb =>
      (k.osTimeTickHook.OSTCBTbl ptcb).OSTCBPrio ≠ osTaskIdlePrio) =
      k.OSTCBList.takeWhile fun ptcb => (k.OSTCBTbl ptcb).OSTCBPrio ≠ osTaskIdlePrio := by
    simp only [hook.same.list, hook.prio]
  have inside : i ∈ k.OSTCBList.takeWhile fun ptcb =>
      (k.OSTCBTbl ptcb).OSTCBPrio ≠ osTaskIdlePrio := by
    rw [list, List.mem_append, List.mem_singleton] at mem
    refine mem.resolve_right ?_
    rintro rfl
    exact delayed runs.2
  have distinct := (List.nodup_append'.mp c.sound.pool).1.sublist
    (List.takeWhile_sublist fun ptcb => (k.OSTCBTbl ptcb).OSTCBPrio ≠ osTaskIdlePrio)
  unfold Kernel.osTimeTick
  simp only [prios, if_pos (hook.same.running.trans c.live.running)]
  rw [foldl_tickTcb_tcb distinct, if_pos inside, same]

/-! ### A task that has called `OSTimeDly` -/

/-- The task has `n` ticks to go, is in no pend call and cannot run meanwhile. -/
structure Sleeps (n : ℕ) (k : Kernel) (i : TcbId) : Prop where
  mem : i ∈ k.OSTCBList
  place : (k.pc i).waitsFor = none
  dly : (k.OSTCBTbl i).OSTCBDly = n
  pos : n ≠ 0
  cur : k.OSTCBCur = i → k.OSLockNesting = 0

theorem Sleeps.free (sleeps : Sleeps n k i) (s : Sound k) (e : EventId) :
    ¬ (k.OSTCBTbl i).Registered e := by
  have phase := s.phase i sleeps.mem
  rw [sleeps.place] at phase
  exact Tcb.not_registered_of_phase phase e

/-- A task that sleeps does not run its own code. -/
theorem Sleeps.ne_cur (sleeps : Sleeps n k i) (c : Consistent k) (inTask : k.InTask)
    (rest : (k.pc k.OSTCBCur).beforeSched = false) : i ≠ k.OSTCBCur := by
  rintro rfl
  have runs := (c.live.atRest inTask.1 (sleeps.cur rfl) inTask.2 rest).2
  exact sleeps.pos (sleeps.dly.symm.trans runs.2)

/-- A task that sleeps does not lock the scheduler, and is not switched to. -/
theorem Sleeps.cur_step (sleeps : Sleeps n k i) (c : Consistent k) {a : Act}
    (disciplined : k.Disciplined a) :
    (k.step a).OSTCBCur = i → (k.step a).OSLockNesting = 0 := by
  unfold Kernel.step
  split_ifs with enabled
  · cases a with
    | call a =>
        obtain ⟨-, run, -⟩ := c.exec enabled a disciplined
        intro cur
        rw [run.cur] at cur
        rcases enabled with nested | ⟨inTask, user, -⟩
        · rw [run.lock nested, sleeps.cur cur]
        · exact absurd cur.symm (sleeps.ne_cur c inTask (by rw [user]; rfl))
    | sched =>
        rcases schedStep_cases k with same | ⟨place, -, same⟩
        · rw [same]
          exact sleeps.cur
        · have tasks := sameTasks_osSched k
          rw [same]
          exact fun cur => tasks.lock.trans (sleeps.cur (tasks.cur.symm.trans cur))
    | pendEnd =>
        rcases pendEndStep_cases k with same | ⟨kind, e, same⟩
        · rw [same]
          exact sleeps.cur
        · rw [same, osPendEnd_eq]
          exact sleeps.cur
    | intEnter =>
        have tasks := sameTasks_osIntEnter k
        exact fun cur => tasks.lock.trans (sleeps.cur (tasks.cur.symm.trans cur))
    | tick =>
        have w := c.wakes_osTimeTick enabled
        simp only [w.same.cur, w.same.lock]
        exact sleeps.cur
    | intExit =>
        have tasks := sameTasks_osIntExit k
        exact fun cur => tasks.lock.trans (sleeps.cur (tasks.cur.symm.trans cur))
    | pendSV =>
        intro cur
        have cur : k.OSTCBHighRdy = i := cur
        -- the switch goes to a task that may run, and this one is delayed
        obtain ⟨⟨⟨j, here, runs⟩, -⟩, there⟩ := c.live.switch enabled.2 enabled.1
        rw [there, Slot.tcb.injEq, cur] at here
        rw [← here] at runs
        exact absurd (sleeps.dly.symm.trans runs.2) sleeps.pos
  · exact sleeps.cur

/-- A step that is not a tick leaves the task asleep. -/
theorem Sleeps.step (sleeps : Sleeps n k i) (c : Consistent k) {a : Act}
    (disciplined : k.Disciplined a) (undeleted : k.Undeleted i a) (unresumed : k.Unresumed i a)
    (noTick : a ≠ .tick) : Sleeps n (k.step a) i := by
  have spared := c.spared_step sleeps.mem (sleeps.free c.sound)
    (fun inTask user => sleeps.ne_cur c inTask (by rw [user]; rfl)) undeleted (Or.inl unresumed)
    (fun pendEnd enabled => ?_) (fun tick => absurd tick noTick)
  · exact ⟨spared.mem, spared.place.trans sleeps.place, spared.tcb.dly.trans sleeps.dly, sleeps.pos,
      sleeps.cur_step c disciplined⟩
  · subst pendEnd
    refine sleeps.ne_cur c enabled.1 ?_
    rcases place : k.pc k.OSTCBCur with _ | _ | _ | _ <;>
      simp_all [Kernel.Enabled, Pc.inPend, Pc.beforeSched]

/-- How far a step takes the clock. -/
def Kernel.ticks (k : Kernel) : Act → ℕ
  | .tick => if 0 < k.OSIntNesting then 1 else 0
  | _ => 0

/-- A tick brings the task one tick nearer, and the last one ends its delay. -/
theorem Sleeps.tick (sleeps : Sleeps n k i) (c : Consistent k) (nested : 0 < k.OSIntNesting) :
    (n ≠ 1 → Sleeps (n - 1) (k.step .tick) i) ∧
      (n = 1 → ((k.step .tick).OSTCBTbl i).OSTCBDly = 0 ∧
        (((k.step .tick).OSTCBTbl i).Runnable ↔
          (k.OSTCBTbl i).OSTCBStat &&& osStatSuspend = osStatRdy)) := by
  have step : k.step .tick = k.osTimeTick := if_pos nested
  have delayed : (k.OSTCBTbl i).OSTCBDly ≠ 0 := sleeps.dly ▸ sleeps.pos
  have block := c.tcb_osTimeTick nested sleeps.mem (sleeps.free c.sound) delayed
  have w := c.wakes_osTimeTick nested
  rw [step]
  have cur := sleeps.cur_step c (a := .tick) trivial
  rw [step] at cur
  rw [block, Tcb.ticked, if_pos delayed, sleeps.dly]
  constructor
  · intro more
    have notLast : ¬ n - 1 = 0 := by
      have := sleeps.pos
      omega
    refine ⟨by rw [w.same.list]; exact sleeps.mem, by rw [w.pc]; exact sleeps.place, ?_, notLast,
      cur⟩
    rw [block, Tcb.ticked, if_pos delayed, sleeps.dly, if_neg notLast]
  · rintro rfl
    rw [if_pos rfl]
    have phase := c.sound.phase i sleeps.mem
    rw [sleeps.place] at phase
    obtain ⟨⟨suspended, stat⟩, -⟩ := phase
    have quiet : ¬ (k.OSTCBTbl i).OSTCBStat &&& osStatPendAny ≠ osStatRdy := by
      rw [stat, statOf_and_pendAny]
      simp
    rw [Tcb.expired, if_neg quiet]
    refine ⟨rfl, ?_⟩
    simp only [Tcb.Runnable, and_true, stat, statOf_and_suspend, statOf_eq_rdy, true_and]

/-- The steps of a run that neither delete the task nor cut its delay short. -/
def Kernel.Undisturbed (i : TcbId) (k : Kernel) (a : Act) : Prop :=
  k.Disciplined a ∧ k.Undeleted i a ∧ k.Unresumed i a

instance (k : Kernel) (i : TcbId) : DecidablePred (k.Undisturbed i) :=
  fun _ => inferInstanceAs (Decidable (_ ∧ _ ∧ _))

/-- **Until its last tick** a task sleeps, along every run. -/
theorem Sleeps.until_last {acts : List Act} (sleeps : Sleeps n k i) (c : Consistent k)
    (guarded : Guarded (Kernel.Undisturbed i) Kernel.step k acts)
    (few : (outputs Kernel.step Kernel.ticks k acts).sum < n) :
    Sleeps (n - (outputs Kernel.step Kernel.ticks k acts).sum) (run Kernel.step k acts) i ∧
      Consistent (run Kernel.step k acts) := by
  induction acts generalizing k n with
  | nil => exact ⟨sleeps, c⟩
  | cons a acts ih =>
      obtain ⟨⟨disciplined, undeleted, unresumed⟩, later⟩ := guarded
      have c' := (c.step disciplined).1
      rw [outputs_cons, List.sum_cons] at few ⊢
      -- outside an interrupt `OSTimeTick` is not called, and the clock stands
      by_cases tick : a = .tick ∧ 0 < k.OSIntNesting
      · obtain ⟨rfl, nested⟩ := tick
        have one : k.ticks .tick = 1 := if_pos nested
        rw [one] at few ⊢
        have sleeps' := (sleeps.tick c nested).1 (by omega)
        rw [Nat.add_comm, ← Nat.sub_sub, Nat.sub_right_comm]
        exact ih sleeps' c' later (by omega)
      · have zero : k.ticks a = 0 := by
          cases a with
          | tick => exact if_neg fun nested => tick ⟨rfl, nested⟩
          | _ => rfl
        have sleeps' : Sleeps n (k.step a) i := by
          by_cases same : a = .tick
          · subst same
            have still : k.step .tick = k := if_neg fun nested => tick ⟨rfl, nested⟩
            rwa [still]
          · exact sleeps.step c disciplined undeleted unresumed same
        rw [zero, Nat.zero_add] at few ⊢
        exact ih sleeps' c' later few

/-- What `OSTimeDly` leaves of the task that calls it. -/
theorem Consistent.sleeps_osTimeDly (c : Consistent k) (inTask : k.InTask)
    (user : k.pc k.OSTCBCur = .user) (unlocked : k.OSLockNesting = 0) (pos : n ≠ 0) :
    Sleeps n (k.osTimeDly n) k.OSTCBCur := by
  have mem := c.live.mem_of_inTask inTask user
  have nested : ¬ 0 < k.OSIntNesting := by rw [inTask.1]; exact lt_irrefl 0
  have locked : ¬ 0 < k.OSLockNesting := by rw [unlocked]; exact lt_irrefl 0
  rw [Kernel.osTimeDly, if_neg nested, if_neg locked, if_pos (Nat.pos_of_ne_zero pos)]
  generalize block : ({ k.tcbCur with OSTCBDly := n } : Tcb) = t
  rw [toSched_of_task (show ((k.rdyClear k.tcbCur.OSTCBPrio).setTcb k.OSTCBCur t).OSIntNesting = 0
    from inTask.1)]
  generalize result : ((k.rdyClear k.tcbCur.OSTCBPrio).setTcb k.OSTCBCur t) = k'
  have place : (k'.setPc k'.OSTCBCur .sched).pc k'.OSTCBCur = .sched := Function.update_self ..
  have tcb : k'.OSTCBTbl k.OSTCBCur = t := by
    rw [← result]
    exact Function.update_self ..
  have cur : k'.OSTCBCur = k.OSTCBCur := by rw [← result]; rfl
  have list : k'.OSTCBList = k.OSTCBList := by rw [← result]; rfl
  have lock : k'.OSLockNesting = 0 := by rw [← result]; exact unlocked
  rw [← cur]
  refine ⟨?_, by rw [place]; rfl, ?_, pos, fun _ => lock⟩
  · rw [cur]
    exact list ▸ mem
  · rw [cur]
    exact (congrArg Tcb.OSTCBDly tcb).trans (by rw [← block])

/-- A task sleeps, and cannot run, for `n` ticks and no longer. -/
theorem Sleeps.exact {acts : List Act} (sleeps : Sleeps n k i) (c : Consistent k)
    (guarded : Guarded (Kernel.Undisturbed i) Kernel.step k acts) :
    ((outputs Kernel.step Kernel.ticks k acts).sum < n →
      ¬ ((run Kernel.step k acts).OSTCBTbl i).Runnable) ∧
    ((outputs Kernel.step Kernel.ticks k acts).sum + 1 = n →
      0 < (run Kernel.step k acts).OSIntNesting →
      ((((run Kernel.step k acts).step .tick).OSTCBTbl i).Runnable ↔
        ((run Kernel.step k acts).OSTCBTbl i).OSTCBStat &&& osStatSuspend = osStatRdy)) := by
  constructor
  · intro few
    obtain ⟨sleeps', -⟩ := sleeps.until_last c guarded few
    exact fun runs => sleeps'.pos (sleeps'.dly.symm.trans runs.2)
  · intro last nested
    obtain ⟨sleeps', c'⟩ := sleeps.until_last c guarded (by omega)
    exact ((sleeps'.tick c' nested).2 (by omega)).2

/-- The timer task waits for its signal, and the next task runs. -/
def timerWaits : List Act := [.pendSV, .call (.semPend (some 1) 0), .sched, .pendSV]

/-- The task of priority 4 has delayed itself by two ticks. -/
def delayed : Kernel :=
  (run Kernel.step (Kernel.boot [4]) timerWaits).step (.call (.timeDly 2))

/-- The first of the two ticks, and the interrupt of the second one. -/
def secondTick : List Act :=
  [.sched, .pendSV, .intEnter, .tick, .intExit, .intEnter]

/-- The time that `OSTimeDlyHMSM` is asked for, in milliseconds. -/
def millis (hours minutes seconds ms : ℕ) : ℕ := ((hours * 60 + minutes) * 60 + seconds) * 1000 + ms

/-- The ticks, of 10 ms each, are the nearest to the time. -/
theorem ticksOfHMSM_nearest (hours minutes seconds ms : ℕ) :
    10 * Kernel.ticksOfHMSM hours minutes seconds ms ≤ millis hours minutes seconds ms + 5 ∧
      millis hours minutes seconds ms + 5 <
        10 * Kernel.ticksOfHMSM hours minutes seconds ms + 10 := by
  have ticks : Kernel.ticksOfHMSM hours minutes seconds ms =
      (hours * 3600 + minutes * 60 + seconds) * 100 + 100 * (ms + 5) / 1000 := rfl
  rw [ticks, millis]
  omega

/-- **`OSTimeDlyHMSM` rounds to the nearest tick**: for every time that passes its checks,
called by a task in any state the kernel can reach with the scheduler unlocked, it answers
`OS_ERR_NONE`; a time below half a tick does not delay the task at all, and any other keeps it
from running for exactly the number of ticks that is nearest to the time. -/
theorem hmsm_nearest (prios : List ℕ) (acts : List Act)
    (disciplined : Guarded Kernel.Disciplined Kernel.step (Kernel.boot prios) acts)
    {hours minutes seconds ms : ℕ}
    (inTask : (run Kernel.step (Kernel.boot prios) acts).InTask)
    (enabled : (run Kernel.step (Kernel.boot prios) acts).Enabled
      (.call (.timeDlyHMSM hours minutes seconds ms)))
    (unlocked : (run Kernel.step (Kernel.boot prios) acts).OSLockNesting = 0)
    (some_time : ¬ (hours = 0 ∧ minutes = 0 ∧ seconds = 0 ∧ ms = 0))
    (minutes_lt : minutes ≤ 59) (seconds_lt : seconds ≤ 59) (ms_lt : ms ≤ 999) :
    let k := run Kernel.step (Kernel.boot prios) acts
    let a := Act.call (.timeDlyHMSM hours minutes seconds ms)
    let n := Kernel.ticksOfHMSM hours minutes seconds ms
    (k.osTimeDlyHMSM hours minutes seconds ms).2 = .none ∧
      10 * n ≤ millis hours minutes seconds ms + 5 ∧
      millis hours minutes seconds ms + 5 < 10 * n + 10 ∧
      (millis hours minutes seconds ms < 5 → k.step a = k) ∧
      (5 ≤ millis hours minutes seconds ms → ∀ later : List Act,
        Guarded (Kernel.Undisturbed k.OSTCBCur) Kernel.step (k.step a) later →
        let t := (outputs Kernel.step Kernel.ticks (k.step a) later).sum
        let k' := run Kernel.step (k.step a) later
        (t < n → ¬ (k'.OSTCBTbl k.OSTCBCur).Runnable) ∧
          (t + 1 = n → 0 < k'.OSIntNesting →
            (((k'.step .tick).OSTCBTbl k.OSTCBCur).Runnable ↔
              (k'.OSTCBTbl k.OSTCBCur).OSTCBStat &&& osStatSuspend = osStatRdy))) := by
  intro k a n
  have c : Consistent k := consistent_run disciplined
  obtain ⟨-, user, -⟩ := Kernel.InCall.task enabled (not_lt.mpr inTask.1.le)
  obtain ⟨le, lt⟩ := ticksOfHMSM_nearest hours minutes seconds ms
  have nested : ¬ 0 < k.OSIntNesting := not_lt.mpr inTask.1.le
  have locked : ¬ 0 < k.OSLockNesting := not_lt.mpr unlocked.le
  have call : k.osTimeDlyHMSM hours minutes seconds ms = (k.osTimeDly n, .none) := by
    rw [Kernel.osTimeDlyHMSM, if_neg nested, if_neg locked, if_neg some_time,
      if_neg (not_lt.mpr minutes_lt), if_neg (not_lt.mpr seconds_lt), if_neg (not_lt.mpr ms_lt)]
  have step : k.step a = k.osTimeDly n := by
    have step : k.step a = (k.osTimeDlyHMSM hours minutes seconds ms).1 := if_pos enabled
    rw [step, call]
  refine ⟨by rw [call], le, lt, fun short => ?_, fun long later guarded => ?_⟩
  · have zero : n = 0 := by omega
    rw [step, zero, Kernel.osTimeDly, if_neg nested, if_neg locked, if_neg (lt_irrefl 0)]
  · have pos : n ≠ 0 := by omega
    have sleeps := c.sleeps_osTimeDly inTask user unlocked pos
    have c' := (c.step (a := a) trivial).1
    rw [step] at guarded c' ⊢
    exact sleeps.exact c' guarded

/-- The task of priority 4 has delayed itself by 16 ms. -/
def delayedMs : Kernel :=
  (run Kernel.step (Kernel.boot [4]) timerWaits).step (.call (.timeDlyHMSM 0 0 0 16))

/-- The nearest are two ticks. -/
theorem hmsm_nearest_sixteen :
    ¬ ((run Kernel.step delayedMs secondTick).OSTCBTbl 3).Runnable ∧
      (((run Kernel.step delayedMs secondTick).step .tick).OSTCBTbl 3).Runnable := by
  obtain ⟨-, -, -, -, sleeps⟩ := hmsm_nearest [4] timerWaits (by decide +kernel)
    (by decide +kernel) (by decide +kernel : Kernel.Enabled _ (.call (.timeDlyHMSM 0 0 0 16)))
    (by decide +kernel) (by decide) (by decide) (by decide) (by decide)
  have exact := sleeps (by decide) secondTick (by decide +kernel)
  exact ⟨exact.1 (by decide +kernel),
    (exact.2 (by decide +kernel) (by decide +kernel)).mpr (by decide +kernel)⟩

end Ucos

end CannonCar
