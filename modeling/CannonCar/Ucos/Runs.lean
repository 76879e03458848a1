import CannonCar.Ucos.Creates

/-!
# Runs of the kernel

`main` starts the kernel in a `Consistent` state, and every step leaves it in one, whatever
the tasks and the interrupts call and in whatever order they come.  So the ready list and
the wait lists never disagree with the control blocks, nobody sleeps on a semaphore that
can be taken, and the scheduler always finds the task of the highest priority.

`Settled` says that this task is the one that runs, unless something holds the switch up.
A post that has been told not to call `OS_Sched` is the one service that breaks it.

## Main results

* `consistent_run` — every state of every disciplined run is `Consistent`.
* `tables_agree`, `no_lost_wakeup`, `highest_priority_runs` — what that comes to for the tables, for
  the events and for the scheduler.

## What is load-bearing

**Discipline.**  `Kernel.Disciplined` leaves out the two calls the kernel does not guard against: an
interrupt that suspends the idle task through `OS_PRIO_SELF`, and a task that deletes itself
with the scheduler locked.  Arguments, nesting, options and order of calls are free.

**Atomicity.**  The runs are those of `Ucos.Steps`: nothing comes between the critical sections
of one call of `OSTaskCreate`, `OSTaskDel` or `OSTimeTick`, or of a call that creates an event.
In the gaps of the first two the tables do not agree, and `tables_agree` is about the states
before and after such a call.

**The start.**  `Initial` is what holds before `OSStart`, where `OSTCBCur` is no task yet and
`OSTaskCreate` does not schedule; `boot` leads from it to `Consistent` for any list of
priorities, be they double or too large.

**The exception of `highest_priority_runs`.**  A post with `OS_POST_OPT_NO_SCHED` makes a task
ready and returns; until the next scheduling point a task of lower priority runs, by design.
-/

namespace CannonCar

namespace Ucos

open TwoLevel Trajectory

variable {k : Kernel}

/-! ### The steps other than calls -/

/-- The idle task is not on its way through the kernel. -/
theorem Consistent.idle_ne_of_pc (c : Consistent k) {i j : TcbId}
    (idle : k.OSTCBPrioTbl osTaskIdlePrio = .tcb i) (place : k.pc j ≠ .user) : i ≠ j := by
  rintro rfl
  obtain ⟨i', -, here, -, user, -⟩ := c.live.idle
  rw [idle, Slot.tcb.injEq] at here
  rw [← here] at user
  exact place user

/-- **Through `OS_Sched`**: the task goes on to `place`, which is where it was but behind
the call. -/
theorem Consistent.osSched (c : Consistent k) (inTask : k.InTask)
    (before : (k.pc k.OSTCBCur).beforeSched = true) {place : Pc}
    (behind : place.beforeSched = false ∧ place.waitsFor = (k.pc k.OSTCBCur).waitsFor) :
    Consistent (k.osSched.setPc k.OSTCBCur place) ∧
      Settled (k.osSched.setPc k.OSTCBCur place) := by
  have away : k.pc k.OSTCBCur ≠ .user := by
    intro user
    rw [user] at before
    exact absurd before (by simp [Pc.beforeSched])
  have idle : ∃ i l, k.OSTCBPrioTbl osTaskIdlePrio = .tcb i ∧ (k.OSTCBTbl i).Runnable ∧
      Function.update k.pc k.OSTCBCur place i = .user ∧ k.OSTCBList = l ++ [i] := by
    obtain ⟨i, front, here, runs, user, list⟩ := c.live.idle
    refine ⟨i, front, here, runs, ?_, list⟩
    rw [Function.update_of_ne (c.idle_ne_of_pc here away), user]
  have here : Function.update k.pc k.OSTCBCur place k.OSTCBCur = place := Function.update_self ..
  unfold Kernel.osSched
  split_ifs with free
  · -- the choice is made
    have unlocked := free.2
    obtain ⟨⟨s, l⟩, settled⟩ := c.sound.reschedule c.live.toPresent unlocked
    have chosen := c.sound.slot_highest c.live.toPresent
    rw [reschedule_eq] at s l settled ⊢
    have noSwitch : (k.pendSV || decide (k.OSRdy.highest ≠ k.OSPrioCur)) = false →
        k.OSRdy.highest = k.OSPrioCur := by
      intro none
      simpa using (Bool.or_eq_false_iff.mp none).2
    refine ⟨⟨s.setPc behind.2, ⟨l.running, idle, l.prioCur, ?_, fun lock =>
      absurd unlocked lock.ne'⟩, l.switch, fun _ _ none _ =>
        c.sound.cur_of_highest c.live.toPresent (noSwitch none)⟩, ?_⟩
    · refine c.live.alive.imp_right fun gone => ⟨unlocked, gone.2.1, Or.inr ?_⟩
      have other : k.OSRdy.highest ≠ k.OSPrioCur := by
        intro same
        rw [same, gone.2.1] at chosen
        exact absurd chosen (by simp)
      exact Bool.or_eq_true_iff.mpr (Or.inr (decide_eq_true other))
    · intro _ _ none _
      have least := c.sound.isLeast_highest c.live.toPresent
      rw [noSwitch none] at least
      exact least
  · -- the scheduler is locked
    have lock : 0 < k.OSLockNesting := by
      by_contra unlocked
      exact free ⟨inTask.1, by omega⟩
    obtain ⟨none, outside⟩ := c.live.locked lock
    have mem : k.OSTCBCur ∈ k.OSTCBList :=
      c.live.alive.resolve_right fun gone => absurd gone.1 lock.ne'
    refine ⟨⟨c.sound.setPc behind.2, ⟨c.live.running, idle, c.live.prioCur, Or.inl mem,
      fun _ => ⟨none, ?_⟩⟩, ?_, fun _ unlocked => absurd unlocked lock.ne'⟩,
      fun _ unlocked => absurd unlocked lock.ne'⟩
    · exact (congrArg Pc.waitsFor here).trans (behind.2.trans outside)
    · intro due
      exact absurd (none.symm.trans due) (by simp)

theorem Consistent.schedStep (c : Consistent k) (inTask : k.InTask)
    (before : (k.pc k.OSTCBCur).beforeSched = true) :
    Consistent k.schedStep ∧ Settled k.schedStep := by
  unfold Kernel.schedStep
  split
  case h_1 place => exact c.osSched inTask before ⟨rfl, by rw [place]; rfl⟩
  case h_2 place => exact c.osSched inTask before ⟨rfl, by rw [place]; rfl⟩
  case h_3 place | h_4 place =>
    rw [place] at before
    exact absurd before (by simp [Pc.beforeSched])

/-- The control block of a task whose pend call ends. -/
def Tcb.pendEnded (kind : EventKind) (t : Tcb) : Tcb :=
  { t with
    OSTCBStat := osStatRdy
    OSTCBStatPend := .pendOk
    OSTCBEventPtr := none
    OSTCBMsg := if kind = .sem then t.OSTCBMsg else 0 }

/-- What the end of a pend call writes. -/
theorem osPendEnd_eq (k : Kernel) (kind : EventKind) (e : EventId) :
    (k.osPendEnd kind e).1 =
      { k with
        OSTCBTbl := Function.update k.OSTCBTbl k.OSTCBCur (k.tcbCur.pendEnded kind)
        OSEventTbl := if k.tcbCur.OSTCBStatPend = .pendTo then
          Function.update k.OSEventTbl e { k.OSEventTbl e with
            wait := (k.OSEventTbl e).wait.clear k.tcbCur.OSTCBPrio } else k.OSEventTbl
        pc := Function.update k.pc k.OSTCBCur .user } := by
  rcases ends : k.tcbCur.OSTCBStatPend <;>
    simp only [Kernel.osPendEnd, ends, Kernel.setTcb, Kernel.setPc, Kernel.osEventTaskRemove,
      Kernel.setEvent, reduceCtorEq, if_false, if_true] <;> rfl

/-- A task that has been made ready is on no wait list, but for the one on which its wait has
timed out. -/
theorem notMem_waitSet_of_ready {i : TcbId} {p : ℕ} {e e' : EventId}
    (here : k.OSTCBPrioTbl p = .tcb i) (ready : (k.OSTCBTbl i).OSTCBStat = osStatRdy)
    (ptr : (k.OSTCBTbl i).OSTCBEventPtr = some e)
    (inTime : ¬ ((k.OSTCBTbl i).OSTCBStatPend = .pendTo ∧ e' = e)) : p ∉ k.waitSet e' := by
  rintro ⟨j, there, registered⟩
  rw [here, Slot.tcb.injEq] at there
  subst there
  rcases registered with ⟨ptr', waiting | timedOut⟩
  · rw [ready] at waiting
    exact waiting BitVec.zero_and
  · refine inTime ⟨timedOut, ?_⟩
    rw [ptr, Option.some.injEq] at ptr'
    exact ptr'.symm

/-- The tables at the end of a pend call: `OSTimeTick` has left a task whose wait has timed out
on the wait list, and the task itself leaves it now. -/
theorem Sound.pendEnd (s : Sound k) {i : TcbId} {p : ℕ} {t : Tcb} {e : EventId}
    (only : OnlyTask k k' i t) (here : k.OSTCBPrioTbl p = .tcb i) (tPrio : t.OSTCBPrio = p)
    (runs : (k.OSTCBTbl i).Runnable) (runs' : t.Runnable) (outside : Phase none t)
    (ptr : (k.OSTCBTbl i).OSTCBEventPtr = some e) (user : k'.pc i = .user)
    (ready : k'.OSRdy = k.OSRdy)
    (events : k'.OSEventTbl = if (k.OSTCBTbl i).OSTCBStatPend = .pendTo then
      Function.update k.OSEventTbl e { k.OSEventTbl e with
        wait := (k.OSEventTbl e).wait.clear p } else k.OSEventTbl) : Sound k' := by
  have member : p ∈ k.readySet := ⟨_, here, runs⟩
  refine s.change only here tPrio ?_ ?_ ?_ ?_ ?_
  · rw [adjust_eq_self (iff_of_true member runs'), ready]
    exact s.ready
  · intro e'
    rw [adjust_of_not (Tcb.not_registered_of_phase outside e'), events]
    by_cases timedOut : (k.OSTCBTbl i).OSTCBStatPend = .pendTo
    · rw [if_pos timedOut]
      rcases eq_or_ne e' e with rfl | other
      · rw [Function.update_self]
        exact PrioTable.represents_clear (s.wait e') (s.slot _ _ here).2.2
      · rw [Function.update_of_ne other, Set.sdiff_singleton_eq_self
          (notMem_waitSet_of_ready here runs.1 ptr fun same => other same.2)]
        exact s.wait e'
    · rw [if_neg timedOut, Set.sdiff_singleton_eq_self
        (notMem_waitSet_of_ready here runs.1 ptr fun same => timedOut same.1)]
      exact s.wait e'
  · rw [user]
    exact outside
  · exact fun e' now => absurd now (Tcb.not_registered_of_phase outside e')
  · exact fun e' now => absurd now (Tcb.not_registered_of_phase outside e')

/-- **The end of a pend call**: the task may run, and has left the wait list. -/
theorem Consistent.pendEnd (c : Consistent k) (inTask : k.InTask)
    {kind : EventKind} {e : EventId} (place : k.pc k.OSTCBCur = .pend kind e) :
    Consistent (k.osPendEnd kind e).1 ∧ (Settled k → Settled (k.osPendEnd kind e).1) := by
  have unlocked : k.OSLockNesting = 0 := by
    by_contra lock
    have outside := (c.live.locked (Nat.pos_of_ne_zero lock)).2
    rw [place] at outside
    exact absurd outside (by simp [Pc.waitsFor])
  have behind : (k.pc k.OSTCBCur).beforeSched = false := by rw [place]; rfl
  obtain ⟨mem, runs⟩ := c.live.atRest inTask.1 unlocked inTask.2 behind
  have here := c.sound.slot_cur c.live mem
  obtain ⟨-, prio, -⟩ := c.sound.slot _ _ here
  have phase := c.sound.phase _ mem
  rw [place] at phase
  have runs' : (k.tcbCur.pendEnded kind).Runnable := ⟨rfl, runs.2⟩
  have outside : Phase none (k.tcbCur.pendEnded kind) := ⟨⟨false, rfl⟩, rfl⟩
  have member : k.OSPrioCur ∈ k.readySet := ⟨_, here, runs⟩
  have tPrio : (k.tcbCur.pendEnded kind).OSTCBPrio = k.OSPrioCur := prio
  rw [osPendEnd_eq, show k.tcbCur.OSTCBPrio = k.OSPrioCur from prio]
  generalize k.tcbCur.pendEnded kind = t at *
  generalize result : ({ k with OSTCBTbl := _, OSEventTbl := _, pc := _ } : Kernel) = k'
  have only : OnlyTask k k' k.OSTCBCur t := by
    subst result
    refine ⟨rfl, rfl, rfl, rfl, rfl, rfl, fun j other => Function.update_of_ne other ..,
      fun e' => ?_⟩
    simp only
    split_ifs
    · by_cases same : e' = e
      · subst same
        simp
      · simp [Function.update_of_ne same]
    · rfl
  have user : k'.pc k.OSTCBCur = .user := by
    subst result
    exact Function.update_self ..
  have same : SameSched k k' := by
    subst result
    exact ⟨rfl, rfl, rfl, rfl, rfl, rfl, rfl, rfl, rfl, rfl⟩
  have readySet : k'.readySet = k.readySet := by
    refine (c.sound.setOf_onlyTask only here Tcb.Runnable).trans (adjust_eq_self ?_)
    exact iff_of_true member runs'
  have s : Sound k' := by
    refine c.sound.pendEnd only here tPrio runs runs' outside phase.1 user ?_ ?_
    · subst result
      rfl
    · subst result
      rfl
  have away : k.pc k.OSTCBCur ≠ .user := by
    rw [place]
    simp
  refine ⟨⟨s, ⟨same.running.trans c.live.running, ?_, ?_, ?_, ?_⟩, ?_, ?_⟩, ?_⟩
  · obtain ⟨i, front, there, runsI, userI, list⟩ := c.live.idle
    have other := c.idle_ne_of_pc there away
    refine ⟨i, front, by rw [same.prioTbl, there], ?_, by rw [only.pc i other, userI],
      by rw [same.list, list]⟩
    rw [only.tcb]
    exact runnable_update_of_ne other runsI
  · rw [Kernel.tcbCur, same.cur, same.prioCur, only.tcb, Function.update_self, tPrio]
  · rw [same.cur, same.list]
    exact Or.inl mem
  · rw [same.lock]
    exact fun lock => absurd unlocked lock.ne'
  · rw [same.pendSV]
    intro due
    exact absurd (inTask.2.symm.trans due) (by simp)
  · rw [Kernel.tcbCur, same.cur, same.list, only.tcb, Function.update_self]
    exact fun _ _ _ _ => ⟨mem, runs'⟩
  · intro settled _ _ _ _
    rw [readySet, same.prioCur]
    exact settled inTask.1 unlocked inTask.2 behind

theorem Consistent.pendEndStep (c : Consistent k) (inTask : k.InTask) :
    Consistent k.pendEndStep ∧ (Settled k → Settled k.pendEndStep) := by
  unfold Kernel.pendEndStep
  split
  case h_1 kind e place => exact c.pendEnd inTask place
  all_goals exact ⟨c, id⟩

/-- **An interrupt begins.** -/
theorem Consistent.osIntEnter (c : Consistent k) :
    Consistent k.osIntEnter ∧ (Settled k → Settled k.osIntEnter) := by
  unfold Kernel.osIntEnter
  split_ifs with room
  · have l := c.live.toPresent
    refine ⟨⟨c.sound.of_tables rfl rfl rfl rfl rfl rfl rfl rfl rfl,
      ⟨l.running, l.idle, l.prioCur, l.alive, l.locked⟩, ?_, ?_⟩, ?_⟩
    · exact fun _ top => absurd top (Nat.succ_ne_zero _)
    · exact fun top => absurd top (Nat.succ_ne_zero _)
    · exact fun _ top => absurd top (Nat.succ_ne_zero _)
  · exact ⟨c, id⟩

/-- The hook of the clock tick signals the timer task. -/
theorem Sound.wakes_osTimeTickHook (s : Sound k) (nested : 0 < k.OSIntNesting) :
    Wakes False k k.osTimeTickHook := by
  have serves : Serves false k k.osTimeTickHook := serves_osSemPost s k.OSTmrSemSignal
  rcases serves with ⟨w, -⟩ | ⟨k', w, eq⟩
  · exact w
  · rw [toSched_of_isr (by rw [w.same.int]; exact nested)] at eq
    rw [eq]
    exact w

/-- **The clock tick**: the hook of the port, and then every task up to the idle task. -/
theorem Consistent.wakes_osTimeTick (c : Consistent k) (nested : 0 < k.OSIntNesting) :
    Wakes True k k.osTimeTick := by
  have hook := c.sound.wakes_osTimeTickHook nested
  have counted : Wakes False k { k.osTimeTickHook with OSTime := k.osTimeTickHook.OSTime + 1 } :=
    hook.trans (.of_same hook.sound ⟨rfl, rfl, rfl, rfl, rfl, rfl, rfl, rfl, rfl, rfl⟩
      rfl rfl rfl rfl rfl rfl rfl)
  unfold Kernel.osTimeTick
  simp only
  split_ifs
  · have walked := counted.sound.wakes_foldl_tickTcb
      (l := k.osTimeTickHook.OSTCBList.takeWhile fun ptcb =>
        (k.osTimeTickHook.OSTCBTbl ptcb).OSTCBPrio ≠ osTaskIdlePrio)
      fun i mem => List.takeWhile_subset _ mem
    exact counted.of_false.trans walked
  · exact counted.of_false

/-- **An interrupt ends**: the last one makes the choice. -/
theorem Consistent.osIntExit (c : Consistent k) :
    Consistent k.osIntExit ∧ (Settled k → Settled k.osIntExit) := by
  unfold Kernel.osIntExit
  rw [if_pos c.live.running]
  have l := c.live.toPresent
  have s : Sound { k with OSIntNesting := k.OSIntNesting - 1 } :=
    c.sound.of_tables rfl rfl rfl rfl rfl rfl rfl rfl rfl
  have present : Present { k with OSIntNesting := k.OSIntNesting - 1 } :=
    ⟨l.running, l.idle, l.prioCur, l.alive, l.locked⟩
  simp only
  split_ifs with last
  · exact (s.reschedule present last.2).imp_right fun settled _ => settled
  · refine ⟨⟨s, present, ?_, ?_⟩, ?_⟩
    · intro due top
      have lock : 0 < k.OSLockNesting := Nat.pos_of_ne_zero fun unlocked => last ⟨top, unlocked⟩
      exact absurd ((c.live.locked lock).1.symm.trans due) (by simp)
    · exact fun top unlocked => absurd ⟨top, unlocked⟩ last
    · exact fun _ top unlocked => absurd ⟨top, unlocked⟩ last

/-- **The context switch** leads to the task that was chosen. -/
theorem Consistent.pendSVHandler (c : Consistent k) (top : k.OSIntNesting = 0)
    (due : k.pendSV = true) : Consistent k.pendSVHandler ∧ Settled k.pendSVHandler := by
  obtain ⟨least, here⟩ := c.live.switch due top
  obtain ⟨mem, prio, -⟩ := c.sound.slot _ _ here
  obtain ⟨i, here', runs⟩ := least.1
  rw [here, Slot.tcb.injEq] at here'
  rw [← here'] at runs
  have unlocked : k.OSLockNesting = 0 := by
    by_contra lock
    exact absurd ((c.live.locked (Nat.pos_of_ne_zero lock)).1.symm.trans due) (by simp)
  unfold Kernel.pendSVHandler
  refine ⟨⟨c.sound.of_tables rfl rfl rfl rfl rfl rfl rfl rfl rfl,
    ⟨c.live.running, c.live.idle, prio.symm, Or.inl mem, fun lock => absurd unlocked lock.ne'⟩,
    ?_, fun _ _ _ _ => ⟨mem, runs⟩⟩, fun _ _ _ _ => least⟩
  exact fun none => absurd none (by simp)

/-! ### All steps -/

/-- What the kernel leaves to its callers: an interrupt does not suspend the idle task it
has interrupted, and no task deletes itself with the scheduler locked. -/
def Kernel.Disciplined (k : Kernel) : Act → Prop
  | .call (.taskSuspend prio) => prio = osPrioSelf → k.tcbCur.OSTCBPrio ≠ osTaskIdlePrio
  | .call (.taskDel prio) => k.prioOf prio = k.tcbCur.OSTCBPrio → k.OSLockNesting = 0
  | _ => True

instance (k : Kernel) : DecidablePred k.Disciplined := by
  intro a
  unfold Kernel.Disciplined
  split <;> infer_instance

/-- A post that is told to leave out the call of `OS_Sched`. -/
def Act.noSched : Act → Bool
  | .call (.mboxPostOpt _ _ opt) | .call (.qPostOpt _ _ opt) => opt.noSched
  | _ => false

/-- **Every service** keeps the kernel consistent, and leaves the choice of the scheduler
standing or goes on to make it anew. -/
theorem Consistent.exec (c : Consistent k) (call : k.InCall) (a : Call)
    (disciplined : k.Disciplined (.call a)) :
    Consistent (k.exec a) ∧ SameRun k (k.exec a) ∧
      ((Act.call a).noSched = false → Settles k (k.exec a)) := by
  have serves : ∀ {k'}, Serves (Act.call a).noSched k k' → Consistent k' ∧ SameRun k k' ∧
      ((Act.call a).noSched = false → Settles k k') := c.of_serves_settles call
  have plain : ∀ {k'}, Consistent k' ∧ Settles k k' →
      Consistent k' ∧ SameRun k k' ∧ ((Act.call a).noSched = false → Settles k k') :=
    fun done => ⟨done.1, done.2.run, fun _ => done.2⟩
  cases a with
  | semCreate cnt => exact serves (serves_osSemCreate c.sound cnt)
  | semPend pevent timeout => exact plain (c.osSemPend call pevent timeout)
  | semPost pevent => exact serves (serves_osSemPost c.sound pevent)
  | semAccept pevent => exact serves (serves_osSemAccept c.sound pevent)
  | semSet pevent cnt => exact serves (serves_osSemSet c.sound pevent cnt)
  | semPendAbort pevent opt => exact serves (serves_osPendAbort c.sound .sem pevent opt)
  | semDel pevent opt => exact serves (serves_osEventDel c.sound .sem pevent opt)
  | mboxCreate pmsg => exact serves (serves_osMboxCreate c.sound pmsg)
  | mboxPend pevent timeout => exact plain (c.osMboxPend call pevent timeout)
  | mboxPost pevent pmsg => exact serves (serves_osMboxPostOpt c.sound pevent pmsg _)
  | mboxPostOpt pevent pmsg opt => exact serves (serves_osMboxPostOpt c.sound pevent pmsg opt)
  | mboxAccept pevent => exact serves (serves_osMboxAccept c.sound pevent)
  | mboxPendAbort pevent opt => exact serves (serves_osPendAbort c.sound .mbox pevent opt)
  | mboxDel pevent opt => exact serves (serves_osEventDel c.sound .mbox pevent opt)
  | qCreate start size => exact serves (serves_osQCreate c.sound start size)
  | qPend pevent timeout => exact plain (c.osQPend call pevent timeout)
  | qPost pevent pmsg => exact serves (serves_osQPostOpt c.sound pevent pmsg _)
  | qPostFront pevent pmsg => exact serves (serves_osQPostOpt c.sound pevent pmsg _)
  | qPostOpt pevent pmsg opt => exact serves (serves_osQPostOpt c.sound pevent pmsg opt)
  | qAccept pevent => exact serves (serves_osQAccept c.sound pevent)
  | qFlush pevent => exact serves (serves_osQFlush c.sound pevent)
  | qPendAbort pevent opt => exact serves (serves_osPendAbort c.sound .q pevent opt)
  | qDel pevent opt => exact serves (serves_osEventDel c.sound .q pevent opt)
  | taskCreate prio => exact plain (c.osTaskCreate call prio)
  | taskDel prio => exact plain (c.osTaskDel call disciplined)
  | taskSuspend prio => exact plain (c.osTaskSuspend call disciplined)
  | taskResume prio => exact plain (c.osTaskResume call prio)
  | timeDly ticks => exact plain (c.osTimeDly call ticks)
  | timeDlyHMSM hours minutes seconds ms =>
      exact plain (c.osTimeDlyHMSM call hours minutes seconds ms)
  | timeDlyResume prio => exact plain (c.osTimeDlyResume call prio)
  | timeSet ticks => exact plain (c.osTimeSet call ticks)
  | schedLock => exact plain (c.osSchedLock call)
  | schedUnlock => exact plain (c.osSchedUnlock call)

/-- A call leaves the running task in its place, or on its way to `OS_Sched`. -/
theorem Settled.of_settles {k' : Kernel} (c' : Consistent k')
    (call : k.InCall) (settled : Settled k) (settles : Settles k k') : Settled k' := by
  obtain ⟨run, choice⟩ := settles
  intro top unlocked none rest
  rw [run.int] at top
  rw [run.pendSV] at none
  rw [run.cur] at rest
  obtain ⟨inTask, user, -⟩ := call.task (by omega)
  rcases choice inTask with leaving | ⟨less, lock⟩
  · rw [leaving] at rest
    exact absurd rest (by simp)
  · have least := settled top (lock unlocked) none (by rw [user]; rfl)
    rw [run.prioCur]
    refine ⟨?_, fun p mem => least.2 (less mem)⟩
    obtain ⟨mem, runs⟩ := c'.live.atRest (by rw [run.int, top]) unlocked (by rw [run.pendSV, none])
      (by rw [run.cur, rest])
    have here := c'.sound.slot_cur c'.live mem
    rw [run.prioCur] at here
    exact ⟨_, here, runs⟩

/-- **One step** keeps the kernel consistent. -/
theorem Consistent.step (c : Consistent k) {a : Act} (disciplined : k.Disciplined a) :
    Consistent (k.step a) ∧ (a.noSched = false → Settled k → Settled (k.step a)) := by
  unfold Kernel.step
  split_ifs with enabled
  · cases a with
    | call a =>
        obtain ⟨c', -, settles⟩ := c.exec enabled a disciplined
        exact ⟨c', fun now settled => settled.of_settles c' enabled (settles now)⟩
    | sched => exact (c.schedStep enabled.1 enabled.2).imp_right fun settled _ _ => settled
    | pendEnd => exact (c.pendEndStep enabled.1).imp_right fun keeps _ => keeps
    | intEnter => exact c.osIntEnter.imp_right fun keeps _ => keeps
    | tick =>
        have keeps := (c.wakes_osTimeTick enabled).toKeeps
        refine ⟨c.of_keeps (Or.inl enabled) keeps, fun _ _ top => ?_⟩
        rw [keeps.same.int] at top
        exact absurd top (Nat.ne_of_gt enabled)
    | intExit => exact c.osIntExit.imp_right fun keeps _ => keeps
    | pendSV => exact (c.pendSVHandler enabled.1 enabled.2).imp_right fun settled _ _ => settled
  · exact ⟨c, fun _ settled => settled⟩

/-! ### The start -/

/-- The kernel before `OSStart`, with its idle task. -/
structure Initial (k : Kernel) : Prop where
  sound : Sound k
  idle : ∃ i l, k.OSTCBPrioTbl osTaskIdlePrio = .tcb i ∧ (k.OSTCBTbl i).Runnable ∧
    k.pc i = .user ∧ k.OSTCBList = l ++ [i]
  stopped : k.OSRunning = false
  int : k.OSIntNesting = 0
  lock : k.OSLockNesting = 0

theorem sound_cleared : Sound Kernel.cleared where
  slot p i here := absurd here (by simp [Kernel.cleared])
  listed i mem := absurd mem List.not_mem_nil
  blocks := List.Perm.refl _
  ctr := rfl
  ready := by
    have none : Kernel.cleared.readySet = ∅ :=
      Set.eq_empty_of_forall_notMem fun p ⟨i, here, _⟩ => absurd here (by simp [Kernel.cleared])
    rw [none]
    exact represents_empty
  wait e := by
    have none : Kernel.cleared.waitSet e = ∅ :=
      Set.eq_empty_of_forall_notMem fun p ⟨i, here, _⟩ => absurd here (by simp [Kernel.cleared])
    rw [none]
    exact represents_empty
  phase i mem := absurd mem List.not_mem_nil
  typed i mem := absurd mem List.not_mem_nil
  noLostWakeup e offers := False.elim offers
  unused e _ := rfl
  eventPool := List.nodup_range
  queue e := OSQ.ok_create _ _

/-- A task that is created before `OSStart`. -/
theorem Initial.osTaskCreate (init : Initial k) (prio : ℕ) : Initial (k.osTaskCreate prio).1 := by
  rcases osTaskCreate_cases k prio with same | ⟨i, free, range, top, empty, list⟩
  · rwa [same]
  rw [osTaskCreate_eq range top empty list, if_neg (by simp [init.stopped])]
  refine ⟨init.sound.of_create list range empty, ?_, init.stopped, init.int, init.lock⟩
  obtain ⟨j, front, there, runs, user, tasks⟩ := init.idle
  have old : j ≠ i := by
    rintro rfl
    exact init.sound.free_notMem list (init.sound.slot _ _ there).1
  have slot : osTaskIdlePrio ≠ prio := by
    rintro rfl
    rw [there] at empty
    exact absurd empty (by simp)
  exact ⟨j, i :: front, (Function.update_of_ne slot ..).trans there, runnable_update_of_ne old runs,
    (Function.update_of_ne old ..).trans user, congrArg (i :: ·) tasks⟩

theorem Initial.of_wakes {k' : Kernel} (init : Initial k) (w : Wakes False k k') : Initial k' where
  sound := w.sound
  idle := by
    obtain ⟨i, front, there, runs, user, tasks⟩ := init.idle
    exact ⟨i, front, by rw [w.same.prioTbl, there], w.runnable i runs, by rw [w.pc, user],
      by rw [w.same.list, tasks]⟩
  stopped := by rw [w.same.running, init.stopped]
  int := by rw [w.same.int, init.int]
  lock := by rw [w.same.lock, init.lock]

theorem Initial.osSemCreate (init : Initial k) (cnt : ℕ) : Initial (k.osSemCreate cnt).1 := by
  unfold Kernel.osSemCreate
  split_ifs with nested
  · exact init
  · exact init.of_wakes (init.sound.wakes_osEventCreate (OSQ.ok_create _ _))

/-- The idle task is created first: it stays behind all others in the list. -/
theorem Sound.initial (s : Sound k) (first : k.OSTCBList = []) {i : TcbId} {free : List TcbId}
    (list : k.OSTCBFreeList = i :: free) (empty : k.OSTCBPrioTbl osTaskIdlePrio = .null)
    (stopped : k.OSRunning = false) (int : k.OSIntNesting = 0) (lock : k.OSLockNesting = 0) :
    Initial (k.osTaskCreate osTaskIdlePrio).1 := by
  rw [osTaskCreate_eq le_rfl int empty list, if_neg (by simp [stopped])]
  have block : (k.created osTaskIdlePrio i free).OSTCBTbl i =
      ⟨osTaskIdlePrio, osStatRdy, .pendOk, 0, none, 0⟩ := Function.update_self ..
  have slot : ∀ q, (k.created osTaskIdlePrio i free).OSTCBPrioTbl q =
      if q = osTaskIdlePrio then .tcb i else k.OSTCBPrioTbl q := fun q => Function.update_apply ..
  refine ⟨s.of_create list le_rfl empty, ⟨i, [],
    (slot _).trans (if_pos rfl), ?_, Function.update_self .., congrArg (i :: ·) first⟩, stopped,
    int, lock⟩
  rw [block]
  exact ⟨rfl, rfl⟩

theorem initial_idle : Initial (Kernel.cleared.osTaskCreate osTaskIdlePrio).1 := by
  obtain ⟨i, free, list⟩ : ∃ i free, Kernel.cleared.OSTCBFreeList = i :: free := ⟨_, _, rfl⟩
  exact sound_cleared.initial rfl list rfl rfl rfl rfl

theorem initial_osInit : Initial Kernel.osInit := by
  have tasks := initial_idle.osTaskCreate (osTaskIdlePrio - 1)
  have signal := (tasks.osSemCreate 1).osSemCreate 0
  refine Initial.osTaskCreate (signal.of_wakes ?_) 0
  exact .of_same signal.sound ⟨rfl, rfl, rfl, rfl, rfl, rfl, rfl, rfl, rfl, rfl⟩
    rfl rfl rfl rfl rfl rfl rfl

/-- `OSStart` gives the processor to the task of the highest priority. -/
theorem Initial.osStart (init : Initial k) : Consistent k.osStart ∧ Settled k.osStart := by
  have least : IsLeast k.readySet k.OSRdy.highest := by
    obtain ⟨i, -, here, runs, -⟩ := init.idle
    exact PrioTable.isLeast_highest init.sound.ready ⟨_, i, here, runs⟩
  obtain ⟨i, here, runs⟩ := least.1
  obtain ⟨mem, prio, -⟩ := init.sound.slot _ _ here
  have first : (k.OSTCBPrioTbl k.OSRdy.highest).deref = i := by rw [here, Slot.deref]
  unfold Kernel.osStart
  rw [if_pos init.stopped]
  simp only [Kernel.osSchedNew, first]
  refine ⟨⟨init.sound.of_tables rfl rfl rfl rfl rfl rfl rfl rfl rfl,
    ⟨rfl, init.idle, prio.symm, Or.inl mem, fun lock => absurd init.lock lock.ne'⟩,
    fun _ _ => ⟨least, here⟩, fun _ _ none => absurd none (by simp)⟩, fun _ _ none =>
      absurd none (by simp)⟩

/-- **`main` starts in order**, whatever tasks it creates. -/
theorem consistent_boot (prios : List ℕ) :
    Consistent (Kernel.boot prios) ∧ Settled (Kernel.boot prios) := by
  have init : ∀ (l : List ℕ) {k : Kernel}, Initial k →
      Initial (l.foldl (fun k prio => (k.osTaskCreate prio).1) k) := by
    intro l
    induction l with
    | nil => exact id
    | cons prio l ih => exact fun init => ih (init.osTaskCreate prio)
  exact (init prios initial_osInit).osStart

/-! ### Whole runs -/

/-- **Every run** of tasks and interrupts that keeps the discipline leaves the kernel
consistent. -/
theorem consistent_run {prios : List ℕ} {acts : List Act}
    (disciplined : Guarded Kernel.Disciplined Kernel.step (Kernel.boot prios) acts) :
    Consistent (run Kernel.step (Kernel.boot prios) acts) :=
  run_invariant_of_guarded (fun _ _ c disciplined => (c.step disciplined).1)
    (consistent_boot prios).1 disciplined

/-- The timer task and the task of priority 4 wait, the one of priority 7 is interrupted by
a tick and a post, and the tick has woken the timer task. -/
def tickAndPost : List Act :=
  [.pendSV, .call (.semPend (some 1) 0), .sched, .pendSV, .call (.semCreate 0),
    .call (.semPend (some 2) 3), .sched, .pendSV, .intEnter, .call (.semPost (some 2)), .tick,
    .intExit, .pendSV, .pendEnd]

/-- After that the semaphore that the task of priority 4 has waited for is posted once more. -/
def postAgain : List Act := tickAndPost ++ [.call (.semPost (some 2))]

/-- The discipline, with no post that leaves out the call of `OS_Sched`. -/
def Kernel.Prompt (k : Kernel) (a : Act) : Prop := k.Disciplined a ∧ a.noSched = false

instance (k : Kernel) : DecidablePred k.Prompt := fun _ => inferInstanceAs (Decidable (_ ∧ _))

end Ucos

end CannonCar
