import CannonCar.Ucos.Tasks
import CannonCar.Foundation.Trajectory

/-!
# The running kernel

What happens to the kernel, one step after the other: the running task calls a service,
goes through `OS_Sched` or comes out of a wait; an interrupt starts, calls services and ends;
the context switch that was requested is taken.  Interrupts may come between any two of
these, also between a call and its `OS_Sched`, and between `OS_Sched` and the switch, and may
nest.

## What a step is

Most services have one critical section and then call `OS_Sched`; the pend calls have a
second one behind it.  Each of these is a step of its own, and a task's checks of its
arguments are made together with the critical section that follows them.

Four services are single steps although the source lets interrupts in half way.

* `OSTaskCreate` reserves the slot in one critical section, and `OS_TCBInit` takes the control
  block, enters it in `OSTCBPrioTbl` and, behind the hook, links it and makes it ready in
  three more.  In between the slot is occupied by a task that is not in the list, and an
  interrupt that suspended that priority would be undone by the rest of the creation.
* `OSTaskDel` opens a window in the middle, around `OS_Dummy`, with `OSLockNesting` raised so
  that no switch is made there.  The task is neither ready nor gone in it.
* `OSTimeTick` has a critical section for the clock and one for every task.
* `OSQCreate` takes its two blocks in two critical sections, and it and its two siblings fill
  the event block outside of any.

So the runs here are those in which nothing comes between the critical sections of one such
call.  Every result on runs of the kernel is about them; what an interrupt could do or see in
those gaps is not modelled.
-/

namespace CannonCar

namespace Ucos

open Trajectory

/-- The services, with their arguments. -/
inductive Call
  | semCreate (cnt : ℕ)
  | semPend (pevent : Option EventId) (timeout : ℕ)
  | semPost (pevent : Option EventId)
  | semAccept (pevent : Option EventId)
  | semSet (pevent : Option EventId) (cnt : ℕ)
  | semPendAbort (pevent : Option EventId) (opt : ℕ)
  | semDel (pevent : Option EventId) (opt : ℕ)
  | mboxCreate (pmsg : ℕ)
  | mboxPend (pevent : Option EventId) (timeout : ℕ)
  | mboxPost (pevent : Option EventId) (pmsg : ℕ)
  | mboxPostOpt (pevent : Option EventId) (pmsg : ℕ) (opt : Kernel.PostOpt)
  | mboxAccept (pevent : Option EventId)
  | mboxPendAbort (pevent : Option EventId) (opt : ℕ)
  | mboxDel (pevent : Option EventId) (opt : ℕ)
  | qCreate (start : ℕ → ℕ) (size : ℕ)
  | qPend (pevent : Option EventId) (timeout : ℕ)
  | qPost (pevent : Option EventId) (pmsg : ℕ)
  | qPostFront (pevent : Option EventId) (pmsg : ℕ)
  | qPostOpt (pevent : Option EventId) (pmsg : ℕ) (opt : Kernel.PostOpt)
  | qAccept (pevent : Option EventId)
  | qFlush (pevent : Option EventId)
  | qPendAbort (pevent : Option EventId) (opt : ℕ)
  | qDel (pevent : Option EventId) (opt : ℕ)
  | taskCreate (prio : ℕ)
  | taskDel (prio : ℕ)
  | taskSuspend (prio : ℕ)
  | taskResume (prio : ℕ)
  | timeDly (ticks : ℕ)
  | timeDlyHMSM (hours minutes seconds ms : ℕ)
  | timeDlyResume (prio : ℕ)
  | timeSet (ticks : BitVec 32)
  | schedLock
  | schedUnlock

namespace Kernel

/-- What a service does to the kernel. -/
def exec (k : Kernel) : Call → Kernel
  | .semCreate cnt => (k.osSemCreate cnt).1
  | .semPend pevent timeout => (k.osSemPend pevent timeout).1
  | .semPost pevent => (k.osSemPost pevent).1
  | .semAccept pevent => (k.osSemAccept pevent).1
  | .semSet pevent cnt => (k.osSemSet pevent cnt).1
  | .semPendAbort pevent opt => (osSemPendAbort pevent opt k).1
  | .semDel pevent opt => (osSemDel pevent opt k).1
  | .mboxCreate pmsg => (k.osMboxCreate pmsg).1
  | .mboxPend pevent timeout => (k.osMboxPend pevent timeout).1
  | .mboxPost pevent pmsg => (osMboxPost pevent pmsg k).1
  | .mboxPostOpt pevent pmsg opt => (k.osMboxPostOpt pevent pmsg opt).1
  | .mboxAccept pevent => (k.osMboxAccept pevent).1
  | .mboxPendAbort pevent opt => (osMboxPendAbort pevent opt k).1
  | .mboxDel pevent opt => (osMboxDel pevent opt k).1
  | .qCreate start size => (k.osQCreate start size).1
  | .qPend pevent timeout => (k.osQPend pevent timeout).1
  | .qPost pevent pmsg => (osQPost pevent pmsg k).1
  | .qPostFront pevent pmsg => (osQPostFront pevent pmsg k).1
  | .qPostOpt pevent pmsg opt => (k.osQPostOpt pevent pmsg opt).1
  | .qAccept pevent => (k.osQAccept pevent).1
  | .qFlush pevent => (k.osQFlush pevent).1
  | .qPendAbort pevent opt => (osQPendAbort pevent opt k).1
  | .qDel pevent opt => (osQDel pevent opt k).1
  | .taskCreate prio => (k.osTaskCreate prio).1
  | .taskDel prio => (k.osTaskDel prio).1
  | .taskSuspend prio => (k.osTaskSuspend prio).1
  | .taskResume prio => (k.osTaskResume prio).1
  | .timeDly ticks => k.osTimeDly ticks
  | .timeDlyHMSM hours minutes seconds ms => (k.osTimeDlyHMSM hours minutes seconds ms).1
  | .timeDlyResume prio => (k.osTimeDlyResume prio).1
  | .timeSet ticks => k.osTimeSet ticks
  | .schedLock => k.osSchedLock
  | .schedUnlock => k.osSchedUnlock

end Kernel

/-- What can happen next. -/
inductive Act
  /-- The running task or the interrupt calls a service. -/
  | call (c : Call)
  /-- The running task goes through `OS_Sched`. -/
  | sched
  /-- The running task ends its pend call. -/
  | pendEnd
  /-- An interrupt calls `OSIntEnter`. -/
  | intEnter
  /-- The interrupt calls `OSTimeTick`. -/
  | tick
  /-- The interrupt calls `OSIntExit`. -/
  | intExit
  /-- The context switch is taken. -/
  | pendSV

/-- A task in this place calls `OS_Sched` next. -/
def Pc.beforeSched : Pc → Bool
  | .sched | .pendSched _ _ => true
  | .user | .pend _ _ => false

/-- A task in this place ends its pend call next. -/
def Pc.inPend : Pc → Bool
  | .pend _ _ => true
  | .user | .sched | .pendSched _ _ => false

namespace Kernel

/-- The processor is in the running task, and no switch away from it is due. -/
def InTask (k : Kernel) : Prop := k.OSIntNesting = 0 ∧ k.pendSV = false

instance (k : Kernel) : Decidable k.InTask := inferInstanceAs (Decidable (_ ∧ _))

/-- What can happen in a state.  The idle task calls no service. -/
def Enabled (k : Kernel) : Act → Prop
  | .call _ => 0 < k.OSIntNesting ∨
      (k.InTask ∧ k.pc k.OSTCBCur = .user ∧ k.tcbCur.OSTCBPrio ≠ osTaskIdlePrio)
  | .sched => k.InTask ∧ (k.pc k.OSTCBCur).beforeSched = true
  | .pendEnd => k.InTask ∧ (k.pc k.OSTCBCur).inPend = true
  | .intEnter => True
  | .tick | .intExit => 0 < k.OSIntNesting
  | .pendSV => k.OSIntNesting = 0 ∧ k.pendSV = true

instance (k : Kernel) : DecidablePred k.Enabled
  | .call _ => inferInstanceAs (Decidable (_ ∨ _))
  | .sched | .pendEnd | .pendSV => inferInstanceAs (Decidable (_ ∧ _))
  | .intEnter => inferInstanceAs (Decidable True)
  | .tick | .intExit => inferInstanceAs (Decidable (_ < _))

/-- The running task goes through `OS_Sched`, and on in its call. -/
def schedStep (k : Kernel) : Kernel :=
  match k.pc k.OSTCBCur with
  | .sched => k.osSched.setPc k.OSTCBCur .user
  | .pendSched kind pevent => k.osSched.setPc k.OSTCBCur (.pend kind pevent)
  | .user | .pend _ _ => k

/-- The running task ends its pend call. -/
def pendEndStep (k : Kernel) : Kernel :=
  match k.pc k.OSTCBCur with
  | .pend kind pevent => (k.osPendEnd kind pevent).1
  | .user | .sched | .pendSched _ _ => k

/-- One step; what cannot happen leaves everything as it is. -/
def step (k : Kernel) (a : Act) : Kernel :=
  if k.Enabled a then
    match a with
    | .call c => k.exec c
    | .sched => k.schedStep
    | .pendEnd => k.pendEndStep
    | .intEnter => k.osIntEnter
    | .tick => k.osTimeTick
    | .intExit => k.osIntExit
    | .pendSV => k.pendSVHandler
  else k

/-! ### The start -/

/-- The tables as `OSInit` clears and links them. -/
def cleared : Kernel where
  OSRdy := TwoLevel.Table.empty
  OSTCBPrioTbl := fun _ => .null
  OSTCBTbl := fun _ => ⟨0, osStatRdy, .pendOk, 0, none, 0⟩
  OSTCBList := []
  OSTCBFreeList := List.range osTcbs
  OSTaskCtr := 0
  OSEventTbl := fun _ => ⟨none, 0, 0, TwoLevel.Table.empty, .create (fun _ => 0) 0⟩
  OSEventFreeList := List.range osMaxEvents
  qFree := osMaxQs
  OSTCBCur := 0
  OSTCBHighRdy := 0
  OSPrioCur := 0
  OSPrioHighRdy := 0
  OSIntNesting := 0
  OSLockNesting := 0
  OSRunning := false
  OSTime := 0
  OSTmrSemSignal := none
  pendSV := false
  pc := fun _ => .user

/-- `OSTmr_Init`: the two semaphores and the task of the timers. -/
def osTmrInit (k : Kernel) : Kernel :=
  let k := (k.osSemCreate 1).1
  let (k, signal) := k.osSemCreate 0
  ({ k with OSTmrSemSignal := signal }.osTaskCreate 0).1

/-- `OSInit`: the idle, statistics and timer tasks. -/
def osInit : Kernel :=
  ((cleared.osTaskCreate osTaskIdlePrio).1.osTaskCreate (osTaskIdlePrio - 1)).1.osTmrInit

/-- `OSStart`, with `OSStartHighRdy` of the port. -/
def osStart (k : Kernel) : Kernel :=
  if k.OSRunning = false then
    let k := k.osSchedNew
    let high := (k.OSTCBPrioTbl k.OSPrioHighRdy).deref
    { k with
      OSPrioCur := k.OSPrioHighRdy
      OSTCBHighRdy := high
      OSTCBCur := high
      OSRunning := true
      pendSV := true }
  else k

/-- `main`, with the tasks of these priorities created before `OSStart`. -/
def boot (prios : List ℕ) : Kernel :=
  (prios.foldl (fun k prio => (k.osTaskCreate prio).1) osInit).osStart

end Kernel

end Ucos

end CannonCar
