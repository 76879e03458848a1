import CannonCar.Ucos.PrioTable
import CannonCar.Ucos.Queue

/-!
# The kernel's data and its core

The task and event control blocks of the µC/OS-II kernel and the functions of
`utilities/uCOSII/core/os_core.c` that all services share: making a task ready, putting it
on a wait list, scheduling, interrupts and a task's delay.

A control block is named by its index in `OSTCBTbl` or `OSEventTbl`; `OSTCBList` and the
free lists are lists of such indices.  `pc` says where in a kernel call each task stands,
and `pendSV` that the context switch has been requested and not yet taken.

## Modelling decisions

**What is compiled in.**  The configuration of the repository: 64 priorities, semaphores, mailboxes,
queues and timers, argument checks; no mutexes and no event flags.  Fields of the control blocks
that no function modelled here reads are left out.

**Pointers are indices, lists are lists.**  The doubly linked list of tasks is a list of
indices, and its free list another.  `OSTCBEventPtr` is an index or none.

**A task's place.**  `Pc` says whether a task runs its own code, is about to call `OS_Sched`,
or is in a pend call and on which event.  It takes the place of a program counter and of the
stack, of which nothing else is known.

**Switching is requested, then taken.**  `OS_Sched` and `OSIntExit` set `pendSV`; of what the
handler saves and restores, only which task runs is in the model.

**A service is one transition from its first critical section to its last**, but for the pend
calls and for `OS_Sched`; see `Ucos.Steps` for what that leaves out.
-/

namespace CannonCar

namespace Ucos

abbrev TcbId := ℕ

abbrev EventId := ℕ

/-- The codes `OS_ERR_...` that the services answer with. -/
inductive Err
  | none
  | eventType
  | pendIsr
  | postNullPtr
  | peventNull
  | invalidOpt
  | timeout
  | pendLocked
  | pendAbort
  | delIsr
  | mboxFull
  | qFull
  | qEmpty
  | prioExist
  | prioInvalid
  | schedLocked
  | semOvf
  | taskCreateIsr
  | taskDel
  | taskDelIdle
  | taskDelIsr
  | taskNoMoreTcb
  | taskNotExist
  | taskNotSuspended
  | taskResumePrio
  | taskSuspendIdle
  | taskSuspendPrio
  | taskWaiting
  | timeNotDly
  | timeInvalidMinutes
  | timeInvalidSeconds
  | timeInvalidMs
  | timeZeroDly
  | timeDlyIsr
  deriving DecidableEq

/-- `OSTCBStatPend`: how the last wait ended. -/
inductive PendStat
  | pendOk
  | pendTo
  | pendAbort
  deriving DecidableEq

/-- `OSEventType` of a block in use. -/
inductive EventKind
  | mbox
  | q
  | sem
  deriving DecidableEq

/-- `OS_STAT_RDY`. -/
def osStatRdy : BitVec 8 := 0x00

/-- `OS_STAT_SUSPEND`. -/
def osStatSuspend : BitVec 8 := 0x08

/-- `OS_STAT_PEND_ANY`. -/
def osStatPendAny : BitVec 8 := 0x37

/-- `OS_STAT_MBOX`, `OS_STAT_Q` and `OS_STAT_SEM`. -/
def EventKind.osStat : EventKind → BitVec 8
  | .mbox => 0x02
  | .q => 0x04
  | .sem => 0x01

/-- `OS_LOWEST_PRIO`, which is `OS_TASK_IDLE_PRIO`. -/
def osTaskIdlePrio : ℕ := 63

/-- `OS_MAX_TASKS + OS_N_SYS_TASKS`, the length of `OSTCBTbl`. -/
def osTcbs : ℕ := 22

/-- `OS_MAX_EVENTS`. -/
def osMaxEvents : ℕ := 10

/-- `OS_MAX_QS`. -/
def osMaxQs : ℕ := 4

/-- `OS_PRIO_SELF`. -/
def osPrioSelf : ℕ := 0xFF

/-- A task control block. -/
structure Tcb where
  OSTCBPrio : ℕ
  OSTCBStat : BitVec 8
  OSTCBStatPend : PendStat
  OSTCBDly : ℕ
  OSTCBEventPtr : Option EventId
  OSTCBMsg : ℕ
  deriving DecidableEq

/-- An event control block.  `OSEventType` is `none` for `OS_EVENT_TYPE_UNUSED`,
`OSEventPtr` is the message of a mailbox, and `pq` is the block `OS_Q` that `OSEventPtr` of
a queue points to. -/
structure Event where
  OSEventType : Option EventKind
  OSEventPtr : ℕ
  OSEventCnt : ℕ
  wait : PrioTable
  pq : OSQ

/-- An entry of `OSTCBPrioTbl`. -/
inductive Slot
  | null
  | reserved
  | tcb (ptcb : TcbId)
  deriving DecidableEq

/-- The control block that a pointer leads to. -/
def Slot.deref : Slot → TcbId
  | .tcb ptcb => ptcb
  | .null | .reserved => 0

/-- Where a task stands. -/
inductive Pc
  /-- In its own code. -/
  | user
  /-- In a kernel call, before the call of `OS_Sched` it ends with. -/
  | sched
  /-- In a pend call, on the wait list and before the call of `OS_Sched`. -/
  | pendSched (kind : EventKind) (pevent : EventId)
  /-- In a pend call, behind the call of `OS_Sched`. -/
  | pend (kind : EventKind) (pevent : EventId)
  deriving DecidableEq

structure Kernel where
  OSRdy : PrioTable
  OSTCBPrioTbl : ℕ → Slot
  OSTCBTbl : TcbId → Tcb
  OSTCBList : List TcbId
  OSTCBFreeList : List TcbId
  OSTaskCtr : ℕ
  OSEventTbl : EventId → Event
  OSEventFreeList : List EventId
  /-- The number of blocks on `OSQFreeList`. -/
  qFree : ℕ
  OSTCBCur : TcbId
  OSTCBHighRdy : TcbId
  OSPrioCur : ℕ
  OSPrioHighRdy : ℕ
  OSIntNesting : ℕ
  OSLockNesting : ℕ
  OSRunning : Bool
  OSTime : BitVec 32
  OSTmrSemSignal : Option EventId
  pendSV : Bool
  pc : TcbId → Pc

namespace Kernel

/-- `*OSTCBCur`. -/
def tcbCur (k : Kernel) : Tcb := k.OSTCBTbl k.OSTCBCur

/-- `*ptcb = t`. -/
def setTcb (ptcb : TcbId) (t : Tcb) (k : Kernel) : Kernel :=
  { k with OSTCBTbl := Function.update k.OSTCBTbl ptcb t }

/-- `*pevent = v`. -/
def setEvent (pevent : EventId) (v : Event) (k : Kernel) : Kernel :=
  { k with OSEventTbl := Function.update k.OSEventTbl pevent v }

/-- A task goes on to another place. -/
def setPc (ptcb : TcbId) (c : Pc) (k : Kernel) : Kernel :=
  { k with pc := Function.update k.pc ptcb c }

/-- `OSRdyGrp |= ptcb->OSTCBBitY; OSRdyTbl[ptcb->OSTCBY] |= ptcb->OSTCBBitX`. -/
def rdySet (prio : ℕ) (k : Kernel) : Kernel := { k with OSRdy := k.OSRdy.set prio }

/-- The statements that take a task out of the ready list. -/
def rdyClear (prio : ℕ) (k : Kernel) : Kernel := { k with OSRdy := k.OSRdy.clear prio }

/-! ### `os_core.c` -/

/-- `OS_EventTaskRemove`. -/
def osEventTaskRemove (ptcb : TcbId) (pevent : EventId) (k : Kernel) : Kernel :=
  k.setEvent pevent { k.OSEventTbl pevent with
    wait := (k.OSEventTbl pevent).wait.clear (k.OSTCBTbl ptcb).OSTCBPrio }

/-- `OS_EventTaskRdy`: the waiting task of the highest priority is taken off the list. -/
def osEventTaskRdy (pevent : EventId) (pmsg : ℕ) (msk : BitVec 8) (pendStat : PendStat)
    (k : Kernel) : Kernel :=
  let prio := (k.OSEventTbl pevent).wait.highest
  let ptcb := (k.OSTCBPrioTbl prio).deref
  let t : Tcb := { k.OSTCBTbl ptcb with
    OSTCBDly := 0
    OSTCBMsg := pmsg
    OSTCBStat := (k.OSTCBTbl ptcb).OSTCBStat &&& ~~~msk
    OSTCBStatPend := pendStat }
  let k := k.setTcb ptcb t
  let k := if t.OSTCBStat &&& osStatSuspend = osStatRdy then k.rdySet t.OSTCBPrio else k
  k.osEventTaskRemove ptcb pevent

/-- `OS_EventTaskWait`. -/
def osEventTaskWait (pevent : EventId) (k : Kernel) : Kernel :=
  let prio := k.tcbCur.OSTCBPrio
  let k := k.setTcb k.OSTCBCur { k.tcbCur with OSTCBEventPtr := some pevent }
  let k := k.setEvent pevent { k.OSEventTbl pevent with
    wait := (k.OSEventTbl pevent).wait.set prio }
  k.rdyClear prio

/-- `while (pevent->OSEventGrp != 0u) (void)OS_EventTaskRdy (...)`, for as many rounds as
there are priorities. -/
def osEventTaskRdyAll (pevent : EventId) (pmsg : ℕ) (msk : BitVec 8) (pendStat : PendStat) :
    ℕ → Kernel → Kernel
  | 0, k => k
  | n + 1, k =>
      if (k.OSEventTbl pevent).wait.grp ≠ 0 then
        osEventTaskRdyAll pevent pmsg msk pendStat n (k.osEventTaskRdy pevent pmsg msk pendStat)
      else k

/-- `OS_SchedNew`. -/
def osSchedNew (k : Kernel) : Kernel := { k with OSPrioHighRdy := k.OSRdy.highest }

/-- `OS_SchedNew` with the request of a context switch that follows it in `OS_Sched` and
`OSIntExit`. -/
def reschedule (k : Kernel) : Kernel :=
  let k := k.osSchedNew
  let k := { k with OSTCBHighRdy := (k.OSTCBPrioTbl k.OSPrioHighRdy).deref }
  if k.OSPrioHighRdy ≠ k.OSPrioCur then { k with pendSV := true } else k

/-- `OS_Sched`. -/
def osSched (k : Kernel) : Kernel :=
  if k.OSIntNesting = 0 ∧ k.OSLockNesting = 0 then k.reschedule else k

/-- `OSIntEnter`. -/
def osIntEnter (k : Kernel) : Kernel :=
  if k.OSRunning = true ∧ k.OSIntNesting < 255 then { k with OSIntNesting := k.OSIntNesting + 1 }
  else k

/-- `OSIntExit`. -/
def osIntExit (k : Kernel) : Kernel :=
  if k.OSRunning = true then
    -- at 0 the source does not count down either
    let k := { k with OSIntNesting := k.OSIntNesting - 1 }
    if k.OSIntNesting = 0 ∧ k.OSLockNesting = 0 then k.reschedule else k
  else k

/-- `PendSV_Handler` of the port: the registers are left out. -/
def pendSVHandler (k : Kernel) : Kernel :=
  { k with OSPrioCur := k.OSPrioHighRdy, OSTCBCur := k.OSTCBHighRdy, pendSV := false }

/-- The task goes on to `OS_Sched`.  A service that an interrupt calls finds
`OSIntNesting` above 0 there and comes back at once. -/
def toSched (c : Pc) (k : Kernel) : Kernel :=
  if k.OSIntNesting = 0 then k.setPc k.OSTCBCur c else k

/-- `OSSchedLock`. -/
def osSchedLock (k : Kernel) : Kernel :=
  if k.OSRunning = true ∧ k.OSIntNesting = 0 ∧ k.OSLockNesting < 255 then
    { k with OSLockNesting := k.OSLockNesting + 1 }
  else k

/-- `OSSchedUnlock`. -/
def osSchedUnlock (k : Kernel) : Kernel :=
  if k.OSRunning = true ∧ k.OSIntNesting = 0 ∧ 0 < k.OSLockNesting then
    let k := { k with OSLockNesting := k.OSLockNesting - 1 }
    if k.OSLockNesting = 0 then k.toSched .sched else k
  else k

/-- The body of the loop of `OSTimeTick`, which `OSTimeDlyResume` shares from the point
where the delay has become 0. -/
def dlyExpired (ptcb : TcbId) (k : Kernel) : Kernel :=
  let t := k.OSTCBTbl ptcb
  let t : Tcb :=
    if t.OSTCBStat &&& osStatPendAny ≠ osStatRdy then
      { t with
        OSTCBDly := 0
        OSTCBStat := t.OSTCBStat &&& ~~~osStatPendAny
        OSTCBStatPend := .pendTo }
    else { t with OSTCBDly := 0, OSTCBStatPend := .pendOk }
  let k := k.setTcb ptcb t
  if t.OSTCBStat &&& osStatSuspend = osStatRdy then k.rdySet t.OSTCBPrio else k

/-- One round of the loop of `OSTimeTick`, a critical section of its own. -/
def tickTcb (k : Kernel) (ptcb : TcbId) : Kernel :=
  let t := k.OSTCBTbl ptcb
  if t.OSTCBDly ≠ 0 then
    if t.OSTCBDly - 1 = 0 then k.dlyExpired ptcb
    else k.setTcb ptcb { t with OSTCBDly := t.OSTCBDly - 1 }
  else k

/-! ### `OS_TCBInit`

Its three critical sections, one after the other. -/

/-- `OS_TCBInit` takes the control block and fills it, its stack included. -/
def tcbTake (prio : ℕ) (ptcb : TcbId) (free : List TcbId) (k : Kernel) : Kernel :=
  { k with OSTCBFreeList := free } |>.setTcb ptcb ⟨prio, osStatRdy, .pendOk, 0, none, 0⟩
    |>.setPc ptcb .user

/-- `OS_TCBInit` enters the control block in `OSTCBPrioTbl`. -/
def tcbEnter (prio : ℕ) (ptcb : TcbId) (k : Kernel) : Kernel :=
  { k with OSTCBPrioTbl := Function.update k.OSTCBPrioTbl prio (.tcb ptcb) }

/-- `OS_TCBInit` links the control block into the list and makes the task ready. -/
def tcbLink (prio : ℕ) (ptcb : TcbId) (k : Kernel) : Kernel :=
  { k with OSTCBList := ptcb :: k.OSTCBList, OSTaskCtr := k.OSTaskCtr + 1 }.rdySet prio

/-- `OS_TCBInit` for a priority whose slot has been reserved. -/
def osTCBInit (prio : ℕ) (k : Kernel) : Kernel × Err :=
  match k.OSTCBFreeList with
  | [] => (k, .taskNoMoreTcb)
  | ptcb :: free => (k.tcbTake prio ptcb free |>.tcbEnter prio ptcb |>.tcbLink prio ptcb, .none)

end Kernel

end Ucos

end CannonCar
