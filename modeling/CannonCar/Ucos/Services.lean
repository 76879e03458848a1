import CannonCar.Ucos.Kernel

/-!
# Semaphores, mailboxes and message queues

The services of `os_sem.c`, `os_mbox.c` and `os_q.c`.  The three files repeat each other:
what a pend call does when it must wait, how it ends, how a wait is aborted and how a block
is taken and given back is written once, with the kind of event as a parameter.

A pend call comes in two parts.  The first one ends with an answer or with the task on the
wait list, `none`; the second one, `osPendEnd`, is run when the task runs again.

## What is load-bearing

* A pend call that finds something answers at once; one that does not leaves an answer for later.
  `osPendEnd` reads `OSTCBStatPend` and `OSTCBMsg` of the task itself, as the source does behind
  `OS_Sched`.
* `PostOpt` has the three options of the posts with options: broadcast, front, and no call of
  `OS_Sched`.  The plain posts are separate functions in the source and here.
* A count that is full, a mailbox that is full and a queue that is full refuse a post with an error
  and change nothing; the callers of this repository do not look at it.
* Deleting an event that tasks wait for, with the option that says so, makes all of them ready with
  an abort, and the block goes back to the free list in the same call.
-/

namespace CannonCar

namespace Ucos

namespace Kernel

/-! ### What the three kinds share -/

/-- A block is taken from `OSEventFreeList` and filled in; `OS_EventWaitListInit` empties
its wait list. -/
def osEventCreate (v : Event) (k : Kernel) : Kernel × Option EventId :=
  match k.OSEventFreeList with
  | [] => (k, none)
  | pevent :: free =>
      ({ k with OSEventFreeList := free }.setEvent pevent { v with wait := TwoLevel.Table.empty },
        some pevent)

/-- `OSTCBCur` goes on the wait list, and on to `OS_Sched`. -/
def osPendBegin (kind : EventKind) (pevent : EventId) (timeout : ℕ) (k : Kernel) : Kernel :=
  let t := k.tcbCur
  let k := k.setTcb k.OSTCBCur { t with
    OSTCBStat := t.OSTCBStat ||| kind.osStat
    OSTCBStatPend := .pendOk
    OSTCBDly := timeout }
  (k.osEventTaskWait pevent).setPc k.OSTCBCur (.pendSched kind pevent)

/-- The end of a pend call: what it answers, and `OSTCBCur` back in order.  `OSSemPend`
leaves `OSTCBMsg` as it is. -/
def osPendEnd (kind : EventKind) (pevent : EventId) (k : Kernel) : Kernel × ℕ × Err :=
  let (k, pmsg, perr) : Kernel × ℕ × Err :=
    match k.tcbCur.OSTCBStatPend with
    | .pendOk => (k, k.tcbCur.OSTCBMsg, .none)
    | .pendAbort => (k, 0, .pendAbort)
    | .pendTo => (k.osEventTaskRemove k.OSTCBCur pevent, 0, .timeout)
  let t : Tcb := { k.tcbCur with
    OSTCBStat := osStatRdy
    OSTCBStatPend := .pendOk
    OSTCBEventPtr := none
    OSTCBMsg := if kind = .sem then k.tcbCur.OSTCBMsg else 0 }
  ((k.setTcb k.OSTCBCur t).setPc k.OSTCBCur .user, pmsg, perr)

/-- `OS_PEND_OPT_BROADCAST`. -/
def osPendOptBroadcast : ℕ := 1

/-- The pend-abort calls. -/
def osPendAbort (kind : EventKind) (pevent : Option EventId) (opt : ℕ) (k : Kernel) :
    Kernel × Err :=
  match pevent with
  | none => (k, .peventNull)
  | some e =>
      if (k.OSEventTbl e).OSEventType ≠ some kind then (k, .eventType)
      else if (k.OSEventTbl e).wait.grp ≠ 0 then
        let k :=
          if opt = osPendOptBroadcast then
            k.osEventTaskRdyAll e 0 kind.osStat .pendAbort 64
          else k.osEventTaskRdy e 0 kind.osStat .pendAbort
        (k.toSched .sched, .pendAbort)
      else (k, .none)

/-- A block goes back to its free list, that of a queue with its `OS_Q`. -/
def osEventFree (kind : EventKind) (e : EventId) (k : Kernel) : Kernel :=
  let k := if kind = .q then { k with qFree := k.qFree + 1 } else k
  { k with OSEventFreeList := e :: k.OSEventFreeList }.setEvent e
    { k.OSEventTbl e with OSEventType := none, OSEventPtr := 0, OSEventCnt := 0 }

/-- `OS_DEL_NO_PEND`. -/
def osDelNoPend : ℕ := 0

/-- `OS_DEL_ALWAYS`. -/
def osDelAlways : ℕ := 1

/-- The delete calls. -/
def osEventDel (kind : EventKind) (pevent : Option EventId) (opt : ℕ) (k : Kernel) :
    Kernel × Err :=
  match pevent with
  | none => (k, .peventNull)
  | some e =>
      if (k.OSEventTbl e).OSEventType ≠ some kind then (k, .eventType)
      else if 0 < k.OSIntNesting then (k, .delIsr)
      else if opt = osDelNoPend then
        if (k.OSEventTbl e).wait.grp = 0 then (k.osEventFree kind e, .none)
        else (k, .taskWaiting)
      else if opt = osDelAlways then
        let tasksWaiting := (k.OSEventTbl e).wait.grp ≠ 0
        let k := (k.osEventTaskRdyAll e 0 kind.osStat .pendOk 64).osEventFree kind e
        (if tasksWaiting then k.toSched .sched else k, .none)
      else (k, .invalidOpt)

/-! ### `os_sem.c` -/

/-- `OSSemCreate`. -/
def osSemCreate (cnt : ℕ) (k : Kernel) : Kernel × Option EventId :=
  if 0 < k.OSIntNesting then (k, none)
  else k.osEventCreate ⟨some .sem, 0, cnt, TwoLevel.Table.empty, .create (fun _ => 0) 0⟩

/-- `OSSemPend`, up to the call of `OS_Sched`. -/
def osSemPend (pevent : Option EventId) (timeout : ℕ) (k : Kernel) : Kernel × Option Err :=
  match pevent with
  | none => (k, some .peventNull)
  | some e =>
      let v := k.OSEventTbl e
      if v.OSEventType ≠ some .sem then (k, some .eventType)
      else if 0 < k.OSIntNesting then (k, some .pendIsr)
      else if 0 < k.OSLockNesting then (k, some .pendLocked)
      else if 0 < v.OSEventCnt then
        (k.setEvent e { v with OSEventCnt := v.OSEventCnt - 1 }, some .none)
      else (k.osPendBegin .sem e timeout, none)

/-- `OSSemPost`. -/
def osSemPost (pevent : Option EventId) (k : Kernel) : Kernel × Err :=
  match pevent with
  | none => (k, .peventNull)
  | some e =>
      let v := k.OSEventTbl e
      if v.OSEventType ≠ some .sem then (k, .eventType)
      else if v.wait.grp ≠ 0 then
        ((k.osEventTaskRdy e 0 EventKind.sem.osStat .pendOk).toSched .sched, .none)
      else if v.OSEventCnt < 65535 then
        (k.setEvent e { v with OSEventCnt := v.OSEventCnt + 1 }, .none)
      else (k, .semOvf)

/-- `OSSemAccept`: the count before the call, 0 if there is no semaphore. -/
def osSemAccept (pevent : Option EventId) (k : Kernel) : Kernel × ℕ :=
  match pevent with
  | none => (k, 0)
  | some e =>
      let v := k.OSEventTbl e
      if v.OSEventType ≠ some .sem then (k, 0)
      else if 0 < v.OSEventCnt then
        (k.setEvent e { v with OSEventCnt := v.OSEventCnt - 1 }, v.OSEventCnt)
      else (k, v.OSEventCnt)

/-- `OSSemSet`. -/
def osSemSet (pevent : Option EventId) (cnt : ℕ) (k : Kernel) : Kernel × Err :=
  match pevent with
  | none => (k, .peventNull)
  | some e =>
      let v := k.OSEventTbl e
      if v.OSEventType ≠ some .sem then (k, .eventType)
      else if 0 < v.OSEventCnt then (k.setEvent e { v with OSEventCnt := cnt }, .none)
      else if v.wait.grp = 0 then (k.setEvent e { v with OSEventCnt := cnt }, .none)
      else (k, .taskWaiting)

/-- `OSSemPendAbort`. -/
def osSemPendAbort := osPendAbort .sem

/-- `OSSemDel`. -/
def osSemDel := osEventDel .sem

/-! ### `os_mbox.c` -/

/-- `OSMboxCreate`. -/
def osMboxCreate (pmsg : ℕ) (k : Kernel) : Kernel × Option EventId :=
  if 0 < k.OSIntNesting then (k, none)
  else k.osEventCreate ⟨some .mbox, pmsg, 0, TwoLevel.Table.empty, .create (fun _ => 0) 0⟩

/-- `OSMboxPend`, up to the call of `OS_Sched`. -/
def osMboxPend (pevent : Option EventId) (timeout : ℕ) (k : Kernel) : Kernel × Option (ℕ × Err) :=
  match pevent with
  | none => (k, some (0, .peventNull))
  | some e =>
      let v := k.OSEventTbl e
      if v.OSEventType ≠ some .mbox then (k, some (0, .eventType))
      else if 0 < k.OSIntNesting then (k, some (0, .pendIsr))
      else if 0 < k.OSLockNesting then (k, some (0, .pendLocked))
      else if v.OSEventPtr ≠ 0 then
        (k.setEvent e { v with OSEventPtr := 0 }, some (v.OSEventPtr, .none))
      else (k.osPendBegin .mbox e timeout, none)

/-- `OS_POST_OPT_BROADCAST`, `OS_POST_OPT_FRONT` and `OS_POST_OPT_NO_SCHED`. -/
structure PostOpt where
  broadcast : Bool
  front : Bool
  noSched : Bool
  deriving DecidableEq

/-- A post finds tasks on the wait list. -/
def osPostWaiting (kind : EventKind) (e : EventId) (pmsg : ℕ) (opt : PostOpt) (k : Kernel) :
    Kernel :=
  let k :=
    if opt.broadcast = true then k.osEventTaskRdyAll e pmsg kind.osStat .pendOk 64
    else k.osEventTaskRdy e pmsg kind.osStat .pendOk
  if opt.noSched = true then k else k.toSched .sched

/-- `OSMboxPostOpt`. -/
def osMboxPostOpt (pevent : Option EventId) (pmsg : ℕ) (opt : PostOpt) (k : Kernel) :
    Kernel × Err :=
  match pevent with
  | none => (k, .peventNull)
  | some e =>
      let v := k.OSEventTbl e
      if pmsg = 0 then (k, .postNullPtr)
      else if v.OSEventType ≠ some .mbox then (k, .eventType)
      else if v.wait.grp ≠ 0 then (k.osPostWaiting .mbox e pmsg opt, .none)
      else if v.OSEventPtr ≠ 0 then (k, .mboxFull)
      else (k.setEvent e { v with OSEventPtr := pmsg }, .none)

/-- `OSMboxPost`, the same with no option. -/
def osMboxPost (pevent : Option EventId) (pmsg : ℕ) : Kernel → Kernel × Err :=
  osMboxPostOpt pevent pmsg ⟨false, false, false⟩

/-- `OSMboxAccept`. -/
def osMboxAccept (pevent : Option EventId) (k : Kernel) : Kernel × ℕ :=
  match pevent with
  | none => (k, 0)
  | some e =>
      let v := k.OSEventTbl e
      if v.OSEventType ≠ some .mbox then (k, 0)
      else (k.setEvent e { v with OSEventPtr := 0 }, v.OSEventPtr)

/-- `OSMboxPendAbort`. -/
def osMboxPendAbort := osPendAbort .mbox

/-- `OSMboxDel`. -/
def osMboxDel := osEventDel .mbox

/-! ### `os_q.c` -/

/-- `OSQCreate`: the event block goes back when there is no `OS_Q` left. -/
def osQCreate (start : ℕ → ℕ) (size : ℕ) (k : Kernel) : Kernel × Option EventId :=
  if 0 < k.OSIntNesting then (k, none)
  else if k.qFree = 0 then (k, none)
  else
    match k.osEventCreate ⟨some .q, 0, 0, TwoLevel.Table.empty, .create start size⟩ with
    | (k, some e) => ({ k with qFree := k.qFree - 1 }, some e)
    | (k, none) => (k, none)

/-- `OSQPend`, up to the call of `OS_Sched`. -/
def osQPend (pevent : Option EventId) (timeout : ℕ) (k : Kernel) : Kernel × Option (ℕ × Err) :=
  match pevent with
  | none => (k, some (0, .peventNull))
  | some e =>
      let v := k.OSEventTbl e
      if v.OSEventType ≠ some .q then (k, some (0, .eventType))
      else if 0 < k.OSIntNesting then (k, some (0, .pendIsr))
      else if 0 < k.OSLockNesting then (k, some (0, .pendLocked))
      else if 0 < v.pq.OSQEntries then
        (k.setEvent e { v with pq := v.pq.get.2 }, some (v.pq.get.1, .none))
      else (k.osPendBegin .q e timeout, none)

/-- `OSQPostOpt`. -/
def osQPostOpt (pevent : Option EventId) (pmsg : ℕ) (opt : PostOpt) (k : Kernel) :
    Kernel × Err :=
  match pevent with
  | none => (k, .peventNull)
  | some e =>
      let v := k.OSEventTbl e
      if v.OSEventType ≠ some .q then (k, .eventType)
      else if v.wait.grp ≠ 0 then (k.osPostWaiting .q e pmsg opt, .none)
      else if v.pq.OSQSize ≤ v.pq.OSQEntries then (k, .qFull)
      else if opt.front = true then (k.setEvent e { v with pq := v.pq.postFront pmsg }, .none)
      else (k.setEvent e { v with pq := v.pq.post pmsg }, .none)

/-- `OSQPost`, the same with no option. -/
def osQPost (pevent : Option EventId) (pmsg : ℕ) : Kernel → Kernel × Err :=
  osQPostOpt pevent pmsg ⟨false, false, false⟩

/-- `OSQPostFront`, the same with `OS_POST_OPT_FRONT`. -/
def osQPostFront (pevent : Option EventId) (pmsg : ℕ) : Kernel → Kernel × Err :=
  osQPostOpt pevent pmsg ⟨false, true, false⟩

/-- `OSQAccept`. -/
def osQAccept (pevent : Option EventId) (k : Kernel) : Kernel × ℕ × Err :=
  match pevent with
  | none => (k, 0, .peventNull)
  | some e =>
      let v := k.OSEventTbl e
      if v.OSEventType ≠ some .q then (k, 0, .eventType)
      else if 0 < v.pq.OSQEntries then
        (k.setEvent e { v with pq := v.pq.get.2 }, v.pq.get.1, .none)
      else (k, 0, .qEmpty)

/-- `OSQFlush`. -/
def osQFlush (pevent : Option EventId) (k : Kernel) : Kernel × Err :=
  match pevent with
  | none => (k, .peventNull)
  | some e =>
      let v := k.OSEventTbl e
      if v.OSEventType ≠ some .q then (k, .eventType)
      else (k.setEvent e { v with pq := v.pq.flush }, .none)

/-- `OSQPendAbort`. -/
def osQPendAbort := osPendAbort .q

/-- `OSQDel`. -/
def osQDel := osEventDel .q

end Kernel

end Ucos

end CannonCar
