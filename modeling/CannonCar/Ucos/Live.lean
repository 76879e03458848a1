import CannonCar.Ucos.Posts

/-!
# The invariant of the scheduler

`Live` is about the running task: it is a task of the kernel unless it has just deleted
itself, it may run whenever it runs its own code with the scheduler unlocked, and a switch
that has been requested leads to the task of the highest priority that may run.  The idle
task is always there to run, which is why `OS_SchedNew` always finds somebody.

`Consistent` is `Live` with `Sound`.  This module shows that the services that do not
wait keep it, and so do the steps of the scheduler.

## What is load-bearing

* `Live.atRest` is about a task in its own code with nothing due.  In an interrupt, with the
  scheduler locked, or between a call and its `OS_Sched`, the running task may well be one that
  may not run, and the invariant says what is known there instead.
* `Settled` is not part of `Consistent`: it needs that no post leaves out `OS_Sched`, and holds
  of the runs where none does.
* The locked scheduler keeps a switch from being requested and a pend call from waiting
  (`Present.locked`), so that a lock that is taken off finds a task that may run.
-/

namespace CannonCar

namespace Ucos

open TwoLevel

/-- The running task and the idle task. -/
structure Present (k : Kernel) : Prop where
  running : k.OSRunning = true
  /-- The idle task may run, is in its own code and is the last of the list. -/
  idle : ∃ i l, k.OSTCBPrioTbl osTaskIdlePrio = .tcb i ∧ (k.OSTCBTbl i).Runnable ∧
    k.pc i = .user ∧ k.OSTCBList = l ++ [i]
  prioCur : k.OSPrioCur = k.tcbCur.OSTCBPrio
  /-- A task that has deleted itself only goes through `OS_Sched` and is switched away from. -/
  alive : k.OSTCBCur ∈ k.OSTCBList ∨ (k.OSLockNesting = 0 ∧
    k.OSTCBPrioTbl k.OSPrioCur = .null ∧ (k.pc k.OSTCBCur = .sched ∨ k.pendSV = true))
  /-- With the scheduler locked no switch is due and the running task does not wait. -/
  locked : 0 < k.OSLockNesting → k.pendSV = false ∧ (k.pc k.OSTCBCur).waitsFor = none

/-- The switch that is due, and the running task if there is none. -/
structure Live (k : Kernel) : Prop extends Present k where
  switch : k.pendSV = true → k.OSIntNesting = 0 → IsLeast k.readySet k.OSPrioHighRdy ∧
    k.OSTCBPrioTbl k.OSPrioHighRdy = .tcb k.OSTCBHighRdy
  atRest : k.OSIntNesting = 0 → k.OSLockNesting = 0 → k.pendSV = false →
    (k.pc k.OSTCBCur).beforeSched = false → k.OSTCBCur ∈ k.OSTCBList ∧ k.tcbCur.Runnable

/-- The tables, the control blocks and the scheduler's variables fit together. -/
structure Consistent (k : Kernel) : Prop where
  sound : Sound k
  live : Live k

/-- A service is being called. -/
def Kernel.InCall (k : Kernel) : Prop :=
  0 < k.OSIntNesting ∨
    (k.InTask ∧ k.pc k.OSTCBCur = .user ∧ k.tcbCur.OSTCBPrio ≠ osTaskIdlePrio)

variable {k k' : Kernel}

/-! ### Calls -/

/-- The task that calls a service is a task of the kernel. -/
theorem Live.mem_of_inTask (l : Live k) (inTask : k.InTask) (user : k.pc k.OSTCBCur = .user) :
    k.OSTCBCur ∈ k.OSTCBList := by
  refine l.alive.resolve_right ?_
  rintro ⟨-, -, leaving | due⟩
  · rw [user] at leaving
    exact absurd leaving (by simp)
  · rw [inTask.2] at due
    exact absurd due (by simp)

theorem Live.runnable_of_inTask (l : Live k) (inTask : k.InTask) (user : k.pc k.OSTCBCur = .user)
    (unlocked : k.OSLockNesting = 0) : k.tcbCur.Runnable :=
  (l.atRest inTask.1 unlocked inTask.2 (by rw [user]; rfl)).2

/-- **The rule for calls** that leave the scheduler's variables alone: the idle task must
not be touched, and a task that is not on its way to `OS_Sched` must not keep itself from
running. -/
theorem Live.of_call (l : Live k) (call : k.InCall) (same : SameSched k k')
    (prio : (k'.OSTCBTbl k.OSTCBCur).OSTCBPrio = k.tcbCur.OSTCBPrio)
    (idle : ∀ i, k.OSTCBPrioTbl osTaskIdlePrio = .tcb i → (k.OSTCBTbl i).Runnable →
      (k'.OSTCBTbl i).Runnable ∧ k'.pc i = k.pc i)
    (isr : 0 < k.OSIntNesting → k'.pc k.OSTCBCur = k.pc k.OSTCBCur)
    (task : k.InTask → (k'.pc k.OSTCBCur).beforeSched = true ∨
      (k'.pc k.OSTCBCur = .user ∧ (k.tcbCur.Runnable → (k'.OSTCBTbl k.OSTCBCur).Runnable)))
    (locked : k.InTask → 0 < k.OSLockNesting → (k'.pc k.OSTCBCur).waitsFor = none) : Live k' := by
  refine ⟨⟨?running, ?idle, ?prioCur, ?alive, ?locked⟩, ?switch, ?atRest⟩
  case running => rw [same.running, l.running]
  case idle =>
    obtain ⟨i, front, here, runs, user, list⟩ := l.idle
    obtain ⟨runs', pc⟩ := idle i here runs
    exact ⟨i, front, by rw [same.prioTbl, here], runs', by rw [pc, user], by rw [same.list, list]⟩
  case prioCur => rw [Kernel.tcbCur, same.cur, same.prioCur, prio, l.prioCur]
  case alive =>
    rw [same.cur, same.list, same.lock, same.prioTbl, same.prioCur, same.pendSV]
    rcases call with nested | ⟨inTask, user, -⟩
    · rw [isr nested]
      exact l.alive
    · exact Or.inl (l.mem_of_inTask inTask user)
  case locked =>
    rw [same.lock, same.pendSV, same.cur]
    intro lock
    obtain ⟨none, place⟩ := l.locked lock
    refine ⟨none, ?_⟩
    rcases call with nested | ⟨inTask, user, -⟩
    · rw [isr nested, place]
    · exact locked inTask lock
  case switch =>
    rw [same.pendSV, same.int]
    intro due top
    rcases call with nested | ⟨inTask, -⟩
    · exact absurd top nested.ne'
    · rw [inTask.2] at due
      exact absurd due (by simp)
  case atRest =>
    rw [Kernel.tcbCur, same.int, same.lock, same.pendSV, same.cur, same.list]
    intro top unlocked _ rest
    rcases call with nested | ⟨inTask, user, -⟩
    · exact absurd top nested.ne'
    · rcases task inTask with leaving | ⟨-, runs⟩
      · rw [leaving] at rest
        exact absurd rest (by simp)
      · exact ⟨l.mem_of_inTask inTask user, runs (l.runnable_of_inTask inTask user unlocked)⟩

/-- A task that moves in its code without entering or leaving a pend call. -/
theorem Sound.setPc (s : Sound k) {i : TcbId} {c : Pc} (place : c.waitsFor = (k.pc i).waitsFor) :
    Sound (k.setPc i c) := by
  have waitsFor : ∀ j, ((k.setPc i c).pc j).waitsFor = (k.pc j).waitsFor := by
    intro j
    have eq : (k.setPc i c).pc j = if j = i then c else k.pc j := Function.update_apply ..
    rw [eq]
    split_ifs with same
    · rw [place, same]
    · rfl
  exact { s with
    phase := fun j mem => by rw [waitsFor]; exact s.phase j mem
    typed := fun j mem e => by rw [waitsFor]; exact s.typed j mem e }

theorem toSched_of_isr {c : Pc} (nested : 0 < k.OSIntNesting) : k.toSched c = k :=
  if_neg nested.ne'

theorem toSched_of_task {c : Pc} (top : k.OSIntNesting = 0) :
    k.toSched c = k.setPc k.OSTCBCur c :=
  if_pos top

theorem sameSched_toSched (c : Pc) : SameSched k (k.toSched c) := by
  unfold Kernel.toSched
  split_ifs <;> exact ⟨rfl, rfl, rfl, rfl, rfl, rfl, rfl, rfl, rfl, rfl⟩

theorem tcb_toSched (c : Pc) : (k.toSched c).OSTCBTbl = k.OSTCBTbl := by
  unfold Kernel.toSched
  split_ifs <;> rfl

theorem Sound.toSched (s : Sound k) (call : k.InCall) : Sound (k.toSched .sched) := by
  rcases call with nested | ⟨inTask, user, -⟩
  · rwa [toSched_of_isr nested]
  · rw [toSched_of_task inTask.1]
    exact s.setPc (by rw [user]; rfl)

/-- The idle task does not call. -/
theorem Consistent.idle_ne_cur (c : Consistent k) {i : TcbId}
    (idle : k.OSTCBPrioTbl osTaskIdlePrio = .tcb i) (other : k.tcbCur.OSTCBPrio ≠ osTaskIdlePrio) :
    i ≠ k.OSTCBCur := by
  rintro rfl
  exact other (c.sound.slot _ _ idle).2.1

/-- A call that ends on its way to `OS_Sched`. -/
theorem Consistent.of_toSched (c : Consistent k) (call : k.InCall) (s : Sound k')
    (same : SameSched k k') (pc : k'.pc = k.pc)
    (prio : (k'.OSTCBTbl k.OSTCBCur).OSTCBPrio = k.tcbCur.OSTCBPrio)
    (idle : ∀ i, k.OSTCBPrioTbl osTaskIdlePrio = .tcb i → (k.OSTCBTbl i).Runnable →
      (k'.OSTCBTbl i).Runnable) :
    Consistent (k'.toSched .sched) := by
  have call' : 0 < k'.OSIntNesting ∨ k'.OSIntNesting = 0 ∧ k'.pc k'.OSTCBCur = .user := by
    rw [same.int, same.cur, pc]
    exact call.imp_right fun task => ⟨task.1.1, task.2.1⟩
  constructor
  · rcases call' with nested | ⟨top, user⟩
    · rwa [toSched_of_isr nested]
    · rw [toSched_of_task top]
      exact s.setPc (by rw [user]; rfl)
  · refine c.live.of_call call (same.trans (sameSched_toSched .sched)) ?_ ?_ ?_ ?_ ?_
    · rw [tcb_toSched, prio]
    · intro i here runs
      refine ⟨by rw [tcb_toSched]; exact idle i here runs, ?_⟩
      rcases call with nested | ⟨inTask, -, other⟩
      · rw [toSched_of_isr (by rwa [same.int]), pc]
      · rw [toSched_of_task (by rw [same.int, inTask.1]), Kernel.setPc, same.cur, pc]
        exact Function.update_of_ne (c.idle_ne_cur here other) ..
    · intro nested
      rw [toSched_of_isr (by rwa [same.int]), pc]
    all_goals
      intro inTask
      have place : (k'.toSched .sched).pc k.OSTCBCur = .sched := by
        rw [toSched_of_task (by rw [same.int, inTask.1]), same.cur]
        exact Function.update_self ..
      rw [place]
    · exact Or.inl rfl
    · exact fun _ => rfl

theorem Consistent.of_keeps (c : Consistent k) (call : k.InCall) (w : Keeps k k') :
    Consistent k' := by
  refine ⟨w.sound, c.live.of_call call w.same (w.prio _) ?_ ?_ ?_ ?_⟩
  · exact fun i _ runs => ⟨w.runnable i runs, by rw [w.pc]⟩
  · exact fun _ => by rw [w.pc]
  · intro inTask
    rw [w.pc]
    rcases call with nested | ⟨-, user, -⟩
    · exact absurd inTask.1 nested.ne'
    · exact Or.inr ⟨user, w.runnable _⟩
  · intro _ lock
    rw [w.pc]
    exact (c.live.locked lock).2

/-- **The services that do not wait** keep the kernel consistent. -/
theorem Consistent.of_serves (c : Consistent k) (call : k.InCall) {noSched : Bool}
    (serves : Serves noSched k k') : Consistent k' := by
  rcases serves with ⟨w, -⟩ | ⟨k'', w, rfl⟩
  · exact c.of_keeps call w.toKeeps
  · exact c.of_toSched call w.sound w.same w.pc (w.prio _) fun i _ => w.runnable i

/-! ### The scheduler -/

section Choice

variable (s : Sound k) (l : Present k)

include l in
/-- Somebody may run. -/
theorem Present.nonempty_readySet : k.readySet.Nonempty := by
  obtain ⟨i, -, here, runs, -⟩ := l.idle
  exact ⟨_, i, here, runs⟩

include s l

/-- **`OS_SchedNew` finds the task of the highest priority that may run.** -/
theorem Sound.isLeast_highest : IsLeast k.readySet k.OSRdy.highest :=
  PrioTable.isLeast_highest s.ready l.nonempty_readySet

theorem Sound.slot_highest :
    k.OSTCBPrioTbl k.OSRdy.highest = .tcb (k.OSTCBPrioTbl k.OSRdy.highest).deref := by
  obtain ⟨i, here, -⟩ := (s.isLeast_highest l).1
  rw [here, Slot.deref]

/-- The running task is the one that `OS_SchedNew` finds. -/
theorem Sound.cur_of_highest (same : k.OSRdy.highest = k.OSPrioCur) :
    k.OSTCBCur ∈ k.OSTCBList ∧ k.tcbCur.Runnable := by
  obtain ⟨i, here, runs⟩ := (s.isLeast_highest l).1
  rw [same] at here
  rcases l.alive with mem | ⟨-, null, -⟩
  · have cur : k.OSTCBPrioTbl k.OSPrioCur = .tcb k.OSTCBCur := by
      rw [l.prioCur]
      exact s.listed _ mem
    rw [cur, Slot.tcb.injEq] at here
    exact ⟨mem, by rw [← here] at runs; exact runs⟩
  · rw [null] at here
    exact absurd here (by simp)

end Choice

/-- What `OS_Sched` and `OSIntExit` write. -/
theorem reschedule_eq (k : Kernel) :
    k.reschedule = { k with
      OSPrioHighRdy := k.OSRdy.highest
      OSTCBHighRdy := (k.OSTCBPrioTbl k.OSRdy.highest).deref
      pendSV := k.pendSV || decide (k.OSRdy.highest ≠ k.OSPrioCur) } := by
  unfold Kernel.reschedule Kernel.osSchedNew
  simp only
  split_ifs with other
  · simp [other]
  · simp [other]

/-- The tables do not depend on the scheduler's variables. -/
theorem Sound.of_tables (s : Sound k) (rdy : k'.OSRdy = k.OSRdy)
    (prioTbl : k'.OSTCBPrioTbl = k.OSTCBPrioTbl) (tcb : k'.OSTCBTbl = k.OSTCBTbl)
    (list : k'.OSTCBList = k.OSTCBList) (free : k'.OSTCBFreeList = k.OSTCBFreeList)
    (ctr : k'.OSTaskCtr = k.OSTaskCtr) (event : k'.OSEventTbl = k.OSEventTbl)
    (eventFree : k'.OSEventFreeList = k.OSEventFreeList) (pc : k'.pc = k.pc) : Sound k' := by
  obtain ⟨⟩ := k
  obtain ⟨⟩ := k'
  simp only at rdy prioTbl tcb list free ctr event eventFree pc
  subst rdy prioTbl tcb list free ctr event eventFree pc
  exact ⟨s.slot, s.listed, s.blocks, s.ctr, s.ready, s.wait, s.phase, s.typed, s.noLostWakeup,
    s.unused, s.eventPool, s.queue⟩

/-- With nothing that keeps a switch from being taken, the running task is the one of the
highest priority that may run. -/
def Settled (k : Kernel) : Prop :=
  k.OSIntNesting = 0 → k.OSLockNesting = 0 → k.pendSV = false →
    (k.pc k.OSTCBCur).beforeSched = false → IsLeast k.readySet k.OSPrioCur

/-- The scheduler is unlocked and no interrupt is left: the task of the highest priority
that may run is chosen, and the switch to it requested unless it is the running one. -/
theorem Sound.reschedule (s : Sound k) (l : Present k) (unlocked : k.OSLockNesting = 0) :
    Consistent k.reschedule ∧ Settled k.reschedule := by
  have chosen := s.slot_highest l
  have least := s.isLeast_highest l
  have noSwitch : (k.pendSV || decide (k.OSRdy.highest ≠ k.OSPrioCur)) = false →
      k.OSRdy.highest = k.OSPrioCur := by
    intro none
    simpa using (Bool.or_eq_false_iff.mp none).2
  rw [reschedule_eq]
  refine ⟨⟨s.of_tables rfl rfl rfl rfl rfl rfl rfl rfl rfl, ?_⟩, ?_⟩
  · refine ⟨⟨l.running, l.idle, l.prioCur, ?_, fun lock => absurd unlocked lock.ne'⟩,
      fun _ _ => ⟨least, chosen⟩, fun _ _ none _ => s.cur_of_highest l (noSwitch none)⟩
    refine l.alive.imp_right fun ⟨_, null, leaving⟩ => ⟨unlocked, null, leaving.imp_right ?_⟩
    intro due
    simp [due]
  · intro _ _ none _
    have same := noSwitch none
    rw [same] at least
    exact least

end Ucos

end CannonCar
