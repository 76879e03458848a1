import CannonCar.Ucos.Services

/-!
# Tasks and time

The services of `os_task.c` and `os_time.c`, and the clock tick.  `prio` is `OS_PRIO_SELF` or
the priority of a task; the kernel tells them apart before it looks into `OSTCBPrioTbl`.

## What is load-bearing

**Critical sections have names** where a service has several: `taskDelStop` and `taskDelUnlink`
here, `tcbTake`, `tcbEnter` and `tcbLink` in `Ucos.Kernel`.  The services put them together in
one go; what that leaves out is said in `Ucos.Steps`.

**The tick goes over the list up to the idle task.**  The source walks until it meets the idle
task's priority, and the idle task, created first, is last.

**Suspension is a bit of the status and a delay a count.**  A delay that runs out makes a task ready
only if it is not suspended, and resuming does so only if no delay is left, so that the order of
the two does not matter.
-/

namespace CannonCar

namespace Ucos

namespace Kernel

/-! ### `os_task.c` -/

/-- `OSTaskCreate`: the section that reserves the slot, and those of `OS_TCBInit`. -/
def osTaskCreate (prio : ℕ) (k : Kernel) : Kernel × Err :=
  if osTaskIdlePrio < prio then (k, .prioInvalid)
  else if 0 < k.OSIntNesting then (k, .taskCreateIsr)
  else if k.OSTCBPrioTbl prio = .null then
    let k := { k with OSTCBPrioTbl := Function.update k.OSTCBPrioTbl prio .reserved }
    match k.osTCBInit prio with
    | (k, .none) => (if k.OSRunning = true then k.toSched .sched else k, .none)
    | (k, err) => ({ k with OSTCBPrioTbl := Function.update k.OSTCBPrioTbl prio .null }, err)
  else (k, .prioExist)

/-- The priority that `OS_PRIO_SELF` stands for. -/
def prioOf (prio : ℕ) (k : Kernel) : ℕ :=
  if prio = osPrioSelf then k.tcbCur.OSTCBPrio else prio

/-- The first critical section of `OSTaskDel`: the task is stopped, and the scheduler locked
for the window behind it. -/
def taskDelStop (ptcb : TcbId) (k : Kernel) : Kernel :=
  let t := k.OSTCBTbl ptcb
  let k := k.rdyClear t.OSTCBPrio
  let k := match t.OSTCBEventPtr with
    | some e => k.osEventTaskRemove ptcb e
    | none => k
  let k := k.setTcb ptcb { k.OSTCBTbl ptcb with
    OSTCBDly := 0, OSTCBStat := osStatRdy, OSTCBStatPend := .pendOk }
  if k.OSLockNesting < 255 then { k with OSLockNesting := k.OSLockNesting + 1 } else k

/-- The second critical section of `OSTaskDel`: the lock is taken off, and the control block
given back. -/
def taskDelUnlink (prio : ℕ) (ptcb : TcbId) (k : Kernel) : Kernel :=
  let k := if 0 < k.OSLockNesting then { k with OSLockNesting := k.OSLockNesting - 1 } else k
  { k with
    OSTaskCtr := k.OSTaskCtr - 1
    OSTCBPrioTbl := Function.update k.OSTCBPrioTbl prio .null
    OSTCBList := k.OSTCBList.erase ptcb
    OSTCBFreeList := ptcb :: k.OSTCBFreeList }

/-- `OSTaskDel`, with its two critical sections one after the other. -/
def osTaskDel (prio : ℕ) (k : Kernel) : Kernel × Err :=
  if 0 < k.OSIntNesting then (k, .taskDelIsr)
  else if prio = osTaskIdlePrio then (k, .taskDelIdle)
  else if osTaskIdlePrio ≤ prio ∧ prio ≠ osPrioSelf then (k, .prioInvalid)
  else
    let prio := k.prioOf prio
    match k.OSTCBPrioTbl prio with
    | .null => (k, .taskNotExist)
    | .reserved => (k, .taskDel)
    | .tcb ptcb =>
        let k := (k.taskDelStop ptcb).taskDelUnlink prio ptcb
        (if k.OSRunning = true then k.toSched .sched else k, .none)

/-- `OSTaskSuspend`. -/
def osTaskSuspend (prio : ℕ) (k : Kernel) : Kernel × Err :=
  if prio = osTaskIdlePrio then (k, .taskSuspendIdle)
  else if osTaskIdlePrio ≤ prio ∧ prio ≠ osPrioSelf then (k, .prioInvalid)
  else
    let prio := k.prioOf prio
    match k.OSTCBPrioTbl prio with
    | .null => (k, .taskSuspendPrio)
    | .reserved => (k, .taskNotExist)
    | .tcb ptcb =>
        let t := k.OSTCBTbl ptcb
        let self := prio = k.tcbCur.OSTCBPrio
        let k := (k.rdyClear t.OSTCBPrio).setTcb ptcb
          { t with OSTCBStat := t.OSTCBStat ||| osStatSuspend }
        (if self then k.toSched .sched else k, .none)

/-- `OSTaskResume`. -/
def osTaskResume (prio : ℕ) (k : Kernel) : Kernel × Err :=
  if osTaskIdlePrio ≤ prio then (k, .prioInvalid)
  else
    match k.OSTCBPrioTbl prio with
    | .null => (k, .taskResumePrio)
    | .reserved => (k, .taskNotExist)
    | .tcb ptcb =>
        let t := k.OSTCBTbl ptcb
        if t.OSTCBStat &&& osStatSuspend ≠ osStatRdy then
          let t := { t with OSTCBStat := t.OSTCBStat &&& ~~~osStatSuspend }
          let k := k.setTcb ptcb t
          if t.OSTCBStat = osStatRdy ∧ t.OSTCBDly = 0 then
            let k := k.rdySet t.OSTCBPrio
            (if k.OSRunning = true then k.toSched .sched else k, .none)
          else (k, .none)
        else (k, .taskNotSuspended)

/-! ### `os_time.c` -/

/-- `OSTimeDly`. -/
def osTimeDly (ticks : ℕ) (k : Kernel) : Kernel :=
  if 0 < k.OSIntNesting then k
  else if 0 < k.OSLockNesting then k
  else if 0 < ticks then
    ((k.rdyClear k.tcbCur.OSTCBPrio).setTcb k.OSTCBCur
      { k.tcbCur with OSTCBDly := ticks }).toSched .sched
  else k

/-- `OS_TICKS_PER_SEC`. -/
def osTicksPerSec : ℕ := 100

/-- The ticks that `OSTimeDlyHMSM` converts its arguments to; they stay far below 2^32. -/
def ticksOfHMSM (hours minutes seconds ms : ℕ) : ℕ :=
  (hours * 3600 + minutes * 60 + seconds) * osTicksPerSec +
    osTicksPerSec * (ms + 500 / osTicksPerSec) / 1000

/-- `OSTimeDlyHMSM`. -/
def osTimeDlyHMSM (hours minutes seconds ms : ℕ) (k : Kernel) : Kernel × Err :=
  if 0 < k.OSIntNesting then (k, .timeDlyIsr)
  else if 0 < k.OSLockNesting then (k, .schedLocked)
  else if hours = 0 ∧ minutes = 0 ∧ seconds = 0 ∧ ms = 0 then (k, .timeZeroDly)
  else if 59 < minutes then (k, .timeInvalidMinutes)
  else if 59 < seconds then (k, .timeInvalidSeconds)
  else if 999 < ms then (k, .timeInvalidMs)
  else (k.osTimeDly (ticksOfHMSM hours minutes seconds ms), .none)

/-- `OSTimeDlyResume`. -/
def osTimeDlyResume (prio : ℕ) (k : Kernel) : Kernel × Err :=
  if osTaskIdlePrio ≤ prio then (k, .prioInvalid)
  else
    match k.OSTCBPrioTbl prio with
    | .null | .reserved => (k, .taskNotExist)
    | .tcb ptcb =>
        if (k.OSTCBTbl ptcb).OSTCBDly = 0 then (k, .timeNotDly)
        else
          let k := k.dlyExpired ptcb
          (if (k.OSTCBTbl ptcb).OSTCBStat &&& osStatSuspend = osStatRdy then k.toSched .sched
            else k, .none)

/-- `OSTimeTickHook` of the port, which signals the timer task in every tick. -/
def osTimeTickHook (k : Kernel) : Kernel := (k.osSemPost k.OSTmrSemSignal).1

/-- `OSTimeTick`: the section of the clock, and those of the tasks up to the idle task. -/
def osTimeTick (k : Kernel) : Kernel :=
  let k := k.osTimeTickHook
  let k := { k with OSTime := k.OSTime + 1 }
  if k.OSRunning = true then
    (k.OSTCBList.takeWhile fun ptcb => (k.OSTCBTbl ptcb).OSTCBPrio ≠ osTaskIdlePrio).foldl tickTcb k
  else k

/-- `OSTimeSet`. -/
def osTimeSet (ticks : BitVec 32) (k : Kernel) : Kernel := { k with OSTime := ticks }

end Kernel

end Ucos

end CannonCar
