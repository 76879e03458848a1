import CannonCar.Ucos.Runs

/-!
# What a step leaves alone

A task that is on no wait list is left alone by everything that happens, but for its own
calls, its deletion, the clock, and being suspended and resumed, which changes one bit of
its status.  `Spared` says so of one step, and the results about a message on its way to a
task, and about a delay, rest on it.

## What is load-bearing

`Alike` compares control blocks up to the bit of suspension, since anybody may suspend and resume a
task.  `Spared` asks besides that the task stays in the list and in its place.

The tasks it is about are on no wait list.  For those that are, a step can do more, and what it
can do is said where it is used; for the others it is the exceptions that are listed, one for
each service that names a task.
-/

namespace CannonCar

namespace Ucos

open TwoLevel

variable {k k' : Kernel} {i j : TcbId} {t t' : Tcb}

/-- Two control blocks that differ at most in being suspended. -/
structure Alike (t t' : Tcb) : Prop where
  prio : t'.OSTCBPrio = t.OSTCBPrio
  statPend : t'.OSTCBStatPend = t.OSTCBStatPend
  dly : t'.OSTCBDly = t.OSTCBDly
  eventPtr : t'.OSTCBEventPtr = t.OSTCBEventPtr
  msg : t'.OSTCBMsg = t.OSTCBMsg
  stat : ∀ waits suspended, t.OSTCBStat = statOf waits suspended →
    ∃ suspended', t'.OSTCBStat = statOf waits suspended'

theorem Alike.refl (t : Tcb) : Alike t t := ⟨rfl, rfl, rfl, rfl, rfl, fun _ s stat => ⟨s, stat⟩⟩

theorem Alike.of_eq (same : t' = t) : Alike t t' := same ▸ .refl t

theorem alike_suspend (t : Tcb) :
    Alike t { t with OSTCBStat := t.OSTCBStat ||| osStatSuspend } :=
  ⟨rfl, rfl, rfl, rfl, rfl, fun _ _ stat => ⟨true, by rw [stat, statOf_or_suspend]⟩⟩

theorem alike_resume (t : Tcb) :
    Alike t { t with OSTCBStat := t.OSTCBStat &&& ~~~osStatSuspend } :=
  ⟨rfl, rfl, rfl, rfl, rfl, fun _ _ stat => ⟨false, by rw [stat, statOf_clear_suspend]⟩⟩

/-- A task that a step has left alone. -/
structure Spared (k k' : Kernel) (i : TcbId) : Prop where
  mem : i ∈ k'.OSTCBList
  tcb : Alike (k.OSTCBTbl i) (k'.OSTCBTbl i)
  place : (k'.pc i).waitsFor = (k.pc i).waitsFor

theorem Spared.refl (mem : i ∈ k.OSTCBList) : Spared k k i := ⟨mem, .refl _, rfl⟩

/-- The running task goes on to `OS_Sched`, and the task is not that one. -/
theorem Spared.toSched (spared : Spared k k' i) (same : SameSched k k')
    (away : k.OSIntNesting = 0 → i ≠ k.OSTCBCur) : Spared k (k'.toSched .sched) i := by
  refine ⟨?_, by rw [tcb_toSched]; exact spared.tcb, ?_⟩
  · rw [(sameSched_toSched .sched).list]
    exact spared.mem
  · by_cases top : k.OSIntNesting = 0
    · rw [toSched_of_task (by rw [same.int, top])]
      have other : i ≠ k'.OSTCBCur := by
        rw [same.cur]
        exact away top
      exact (congrArg Pc.waitsFor (Function.update_of_ne other ..)).trans spared.place
    · rw [toSched_of_isr (by rw [same.int]; omega)]
      exact spared.place

/-- A change of one control block. -/
theorem spared_of_update (mem : i ∈ k.OSTCBList) (list : k'.OSTCBList = k.OSTCBList)
    (pc : k'.pc = k.pc) (tcb : k'.OSTCBTbl = Function.update k.OSTCBTbl j t)
    (alike : i = j → Alike (k.OSTCBTbl i) t) : Spared k k' i := by
  refine ⟨by rwa [list], ?_, by rw [pc]⟩
  rw [tcb, Function.update_apply]
  split_ifs with same
  · exact alike same
  · exact .refl _

/-- `OSTaskDel` that is not about the task. -/
def Kernel.Undeleted (i : TcbId) (k : Kernel) : Act → Prop
  | .call (.taskDel prio) => k.prioOf prio ≠ (k.OSTCBTbl i).OSTCBPrio
  | _ => True

/-- The priority that a step deletes. -/
def Act.deletes : Act → Option ℕ
  | .call (.taskDel prio) => some prio
  | _ => none

theorem undeleted_iff {k : Kernel} {i : TcbId} {a : Act} :
    (∀ prio ∈ a.deletes, k.prioOf prio ≠ (k.OSTCBTbl i).OSTCBPrio) ↔ k.Undeleted i a := by
  unfold Act.deletes Kernel.Undeleted
  split <;> simp

instance (k : Kernel) (i : TcbId) : DecidablePred (k.Undeleted i) :=
  fun _ => decidable_of_iff _ undeleted_iff

/-- `OSTimeDlyResume` that is not about the task. -/
def Kernel.Unresumed (i : TcbId) (k : Kernel) : Act → Prop
  | .call (.timeDlyResume prio) => prio ≠ (k.OSTCBTbl i).OSTCBPrio
  | _ => True

instance (k : Kernel) (i : TcbId) : DecidablePred (k.Unresumed i) := by
  intro a
  unfold Kernel.Unresumed
  split <;> infer_instance

/-! ### The services that change one control block -/

/-- One control block is written, and the ready list at most. -/
structure Writes (j : TcbId) (t : Tcb) (k k' : Kernel) : Prop where
  same : SameSched k k'
  pc : k'.pc = k.pc
  event : k'.OSEventTbl = k.OSEventTbl
  tcb : k'.OSTCBTbl = Function.update k.OSTCBTbl j t

theorem writes_setTcb (j : TcbId) (t : Tcb) (k : Kernel) : Writes j t k (k.setTcb j t) :=
  ⟨⟨rfl, rfl, rfl, rfl, rfl, rfl, rfl, rfl, rfl, rfl⟩, rfl, rfl, rfl⟩

theorem Writes.rdySet (writes : Writes j t k k') (p : ℕ) : Writes j t k (k'.rdySet p) :=
  ⟨writes.same.trans ⟨rfl, rfl, rfl, rfl, rfl, rfl, rfl, rfl, rfl, rfl⟩, writes.pc, writes.event,
    writes.tcb⟩

theorem writes_stop (j : TcbId) (t : Tcb) (k : Kernel) (p : ℕ) :
    Writes j t k ((k.rdyClear p).setTcb j t) :=
  ⟨sameSched_stop, rfl, rfl, rfl⟩

/-- The control block of one task is written, and the running task may go on to `OS_Sched`. -/
def Changes (j : TcbId) (t : Tcb) (k k' : Kernel) : Prop :=
  ∃ w, Writes j t k w ∧ (k' = w ∨ k' = w.toSched .sched)

theorem Changes.spared (changes : Changes j t k k') (mem : i ∈ k.OSTCBList)
    (away : k.OSIntNesting = 0 → i ≠ k.OSTCBCur) (alike : i = j → Alike (k.OSTCBTbl i) t) :
    Spared k k' i := by
  obtain ⟨w, writes, result⟩ := changes
  have spared := spared_of_update mem writes.same.list writes.pc writes.tcb alike
  rcases result with rfl | rfl
  · exact spared
  · exact spared.toSched writes.same away

theorem osTaskSuspend_cases (k : Kernel) (prio : ℕ) :
    (k.osTaskSuspend prio).1 = k ∨ ∃ j, Changes j { k.OSTCBTbl j with
      OSTCBStat := (k.OSTCBTbl j).OSTCBStat ||| osStatSuspend } k (k.osTaskSuspend prio).1 := by
  unfold Kernel.osTaskSuspend
  split_ifs
  · exact Or.inl rfl
  · exact Or.inl rfl
  simp only
  split
  · exact Or.inl rfl
  · exact Or.inl rfl
  next j here =>
  refine Or.inr ⟨j, _, writes_stop j _ k (k.OSTCBTbl j).OSTCBPrio, ?_⟩
  split_ifs
  · exact Or.inr rfl
  · exact Or.inl rfl

theorem osTaskResume_cases (k : Kernel) (prio : ℕ) :
    (k.osTaskResume prio).1 = k ∨ ∃ j, Changes j { k.OSTCBTbl j with
      OSTCBStat := (k.OSTCBTbl j).OSTCBStat &&& ~~~osStatSuspend } k (k.osTaskResume prio).1 := by
  unfold Kernel.osTaskResume
  split_ifs
  · exact Or.inl rfl
  split
  · exact Or.inl rfl
  · exact Or.inl rfl
  next j here =>
  have writes := writes_setTcb j { k.OSTCBTbl j with
    OSTCBStat := (k.OSTCBTbl j).OSTCBStat &&& ~~~osStatSuspend } k
  simp only
  split_ifs
  · exact Or.inr ⟨j, _, writes.rdySet _, Or.inr rfl⟩
  · exact Or.inr ⟨j, _, writes.rdySet _, Or.inl rfl⟩
  · exact Or.inr ⟨j, _, writes, Or.inl rfl⟩
  · exact Or.inl rfl

theorem osTimeDly_cases (k : Kernel) (ticks : ℕ) :
    k.osTimeDly ticks = k ∨ k.OSIntNesting = 0 ∧
      Changes k.OSTCBCur { k.tcbCur with OSTCBDly := ticks } k (k.osTimeDly ticks) := by
  unfold Kernel.osTimeDly
  split_ifs with nested
  · exact Or.inl rfl
  · exact Or.inl rfl
  · exact Or.inr ⟨Nat.eq_zero_of_not_pos nested, _, writes_stop _ _ k _, Or.inr rfl⟩
  · exact Or.inl rfl

theorem osTimeDlyHMSM_cases (k : Kernel) (hours minutes seconds ms : ℕ) :
    (k.osTimeDlyHMSM hours minutes seconds ms).1 = k ∨
      (k.osTimeDlyHMSM hours minutes seconds ms).1 =
        k.osTimeDly (Kernel.ticksOfHMSM hours minutes seconds ms) := by
  unfold Kernel.osTimeDlyHMSM
  split_ifs
  case neg => exact Or.inr rfl
  all_goals exact Or.inl rfl

theorem osTimeDlyResume_cases (k : Kernel) (prio : ℕ) :
    (k.osTimeDlyResume prio).1 = k ∨ ∃ j, k.OSTCBPrioTbl prio = .tcb j ∧
      (k.OSTCBTbl j).OSTCBDly ≠ 0 ∧
      Changes j (k.OSTCBTbl j).expired k (k.osTimeDlyResume prio).1 := by
  unfold Kernel.osTimeDlyResume
  split_ifs
  · exact Or.inl rfl
  split
  · exact Or.inl rfl
  · exact Or.inl rfl
  next j here =>
  split_ifs with delay
  · exact Or.inl rfl
  have writes : Writes j (k.OSTCBTbl j).expired k (k.dlyExpired j) := by
    rw [dlyExpired_eq k j rfl]
    exact ⟨⟨rfl, rfl, rfl, rfl, rfl, rfl, rfl, rfl, rfl, rfl⟩, rfl, rfl, rfl⟩
  refine Or.inr ⟨j, here, delay, k.dlyExpired j, writes, ?_⟩
  simp only
  split_ifs
  · exact Or.inr rfl
  · exact Or.inl rfl

section Exec

variable (c : Consistent k) (call : k.InCall) (mem : i ∈ k.OSTCBList)
  (free : ∀ e, ¬ (k.OSTCBTbl i).Registered e) (away : k.OSIntNesting = 0 → i ≠ k.OSTCBCur)

include mem free away

theorem Serves.spared {noSched : Bool} (serves : Serves noSched k k') : Spared k k' i := by
  have woken : ∀ {k'}, Wakes False k k' → Spared k k' i := fun {k'} w =>
    ⟨by rw [w.same.list]; exact mem, .of_eq (w.spares i free False.elim), by rw [w.pc]⟩
  rcases serves with ⟨w, -⟩ | ⟨k'', w, rfl⟩
  · exact woken w
  · exact (woken w).toSched w.same away

omit free in
/-- A pend call is about the running task. -/
theorem spared_osPendBegin (top : k.OSIntNesting = 0) (kind : EventKind) (e : EventId)
    (timeout : ℕ) : Spared k (k.osPendBegin kind e timeout) i := by
  rw [osPendBegin_eq k kind e timeout rfl]
  have other := away top
  exact ⟨mem, .of_eq (Function.update_of_ne other ..),
    congrArg Pc.waitsFor (Function.update_of_ne other ..)⟩

omit free in
theorem spared_osSemPend (pevent : Option EventId) (timeout : ℕ) :
    Spared k (k.osSemPend pevent timeout).1 i := by
  unfold Kernel.osSemPend
  split
  · exact .refl mem
  simp only
  split_ifs with type nested
  case neg => exact spared_osPendBegin mem away (by omega) ..
  all_goals exact ⟨mem, .refl _, rfl⟩

omit free in
theorem spared_osMboxPend (pevent : Option EventId) (timeout : ℕ) :
    Spared k (k.osMboxPend pevent timeout).1 i := by
  unfold Kernel.osMboxPend
  split
  · exact .refl mem
  simp only
  split_ifs with type nested
  case neg => exact spared_osPendBegin mem away (by omega) ..
  all_goals exact ⟨mem, .refl _, rfl⟩

omit free in
theorem spared_osQPend (pevent : Option EventId) (timeout : ℕ) :
    Spared k (k.osQPend pevent timeout).1 i := by
  unfold Kernel.osQPend
  split
  · exact .refl mem
  simp only
  split_ifs with type nested
  case neg => exact spared_osPendBegin mem away (by omega) ..
  all_goals exact ⟨mem, .refl _, rfl⟩

omit free in
theorem spared_osTaskSuspend (prio : ℕ) :
    Spared k (k.osTaskSuspend prio).1 i := by
  rcases osTaskSuspend_cases k prio with same | ⟨j, changes⟩
  · rw [same]
    exact .refl mem
  · exact changes.spared mem away fun same => same ▸ alike_suspend _

omit free in
theorem spared_osTaskResume (prio : ℕ) : Spared k (k.osTaskResume prio).1 i := by
  rcases osTaskResume_cases k prio with same | ⟨j, changes⟩
  · rw [same]
    exact .refl mem
  · exact changes.spared mem away fun same => same ▸ alike_resume _

omit free in
theorem spared_osTimeDly (ticks : ℕ) : Spared k (k.osTimeDly ticks) i := by
  rcases osTimeDly_cases k ticks with same | ⟨top, changes⟩
  · rw [same]
    exact .refl mem
  · exact changes.spared mem away fun same => absurd same (away top)

omit free in
theorem spared_osTimeDlyHMSM (hours minutes seconds ms : ℕ) :
    Spared k (k.osTimeDlyHMSM hours minutes seconds ms).1 i := by
  rcases osTimeDlyHMSM_cases k hours minutes seconds ms with same | same
  · rw [same]
    exact .refl mem
  · rw [same]
    exact spared_osTimeDly mem away _

omit free in
/-- Cutting a delay short leaves the tasks alone that have none. -/
theorem spared_osTimeDlyResume (s : Sound k) {prio : ℕ}
    (other : prio ≠ (k.OSTCBTbl i).OSTCBPrio ∨ (k.OSTCBTbl i).OSTCBDly = 0) :
    Spared k (k.osTimeDlyResume prio).1 i := by
  rcases osTimeDlyResume_cases k prio with same | ⟨j, here, delay, changes⟩
  · rw [same]
    exact .refl mem
  · have apart : i ≠ j := by
      rintro rfl
      exact other.elim (fun other => other (s.slot prio i here).2.1.symm) delay
    exact changes.spared mem away fun same => absurd same apart

omit free in
theorem spared_osTaskCreate (s : Sound k) (prio : ℕ) : Spared k (k.osTaskCreate prio).1 i := by
  rcases osTaskCreate_cases k prio with same | ⟨j, free, range, top, empty, list⟩
  · rw [same]
    exact .refl mem
  have old : i ≠ j := fun same => s.free_notMem list (same ▸ mem)
  have spared : Spared k (k.created prio j free) i :=
    ⟨List.mem_cons_of_mem j mem, .of_eq (Function.update_of_ne old ..),
      congrArg Pc.waitsFor (Function.update_of_ne old ..)⟩
  rw [osTaskCreate_eq range top empty list]
  split_ifs
  · rw [toSched_of_task (show (k.created prio j free).OSIntNesting = 0 from top)]
    exact ⟨spared.mem, spared.tcb,
      (congrArg Pc.waitsFor (Function.update_of_ne (away top) ..)).trans spared.place⟩
  · exact spared

omit free in
theorem spared_osTaskDel (s : Sound k) {prio : ℕ}
    (other : k.prioOf prio ≠ (k.OSTCBTbl i).OSTCBPrio) : Spared k (k.osTaskDel prio).1 i := by
  rcases s.osTaskDel_cases prio with same | ⟨j, top, range, here, deleted⟩
  · rw [same]
    exact .refl mem
  have apart : i ≠ j := by
    rintro rfl
    exact other (s.slot _ i here).2.1.symm
  have distinct := (List.nodup_append'.mp s.pool).1
  have spared : Spared k (k.deleted (k.prioOf prio) j) i :=
    ⟨distinct.mem_erase_iff.mpr ⟨apart, mem⟩, .of_eq (Function.update_of_ne apart ..), rfl⟩
  rw [deleted]
  split_ifs
  · rw [toSched_of_task (show (k.deleted (k.prioOf prio) j).OSIntNesting = 0 from top)]
    exact ⟨spared.mem, spared.tcb,
      (congrArg Pc.waitsFor (Function.update_of_ne (away top) ..)).trans spared.place⟩
  · exact spared

omit free in
theorem spared_osSchedUnlock : Spared k k.osSchedUnlock i := by
  unfold Kernel.osSchedUnlock
  split_ifs with held
  · simp only
    split_ifs
    · rw [Kernel.toSched, if_pos held.2.1]
      exact ⟨mem, .refl _, congrArg Pc.waitsFor (Function.update_of_ne (away held.2.1) ..)⟩
    · exact ⟨mem, .refl _, rfl⟩
  · exact .refl mem

omit free away in
theorem spared_osSchedLock : Spared k k.osSchedLock i := by
  unfold Kernel.osSchedLock
  split_ifs <;> exact ⟨mem, .refl _, rfl⟩

/-- **Every service** leaves the tasks alone that are on no wait list, unless it is about
them. -/
theorem spared_exec (s : Sound k) (a : Call) (undeleted : k.Undeleted i (.call a))
    (unresumed : k.Unresumed i (.call a) ∨ (k.OSTCBTbl i).OSTCBDly = 0) :
    Spared k (k.exec a) i := by
  have posts : ∀ {noSched k'}, Serves noSched k k' → Spared k k' i :=
    fun serves => serves.spared mem free away
  have serves : ∀ {k'}, Serves false k k' → Spared k k' i := posts
  cases a with
  | semCreate cnt => exact serves (serves_osSemCreate s cnt)
  | semPend pevent timeout => exact spared_osSemPend mem away pevent timeout
  | semPost pevent => exact serves (serves_osSemPost s pevent)
  | semAccept pevent => exact serves (serves_osSemAccept s pevent)
  | semSet pevent cnt => exact serves (serves_osSemSet s pevent cnt)
  | semPendAbort pevent opt =>
      exact serves (serves_osPendAbort s .sem pevent opt)
  | semDel pevent opt => exact serves (serves_osEventDel s .sem pevent opt)
  | mboxCreate pmsg => exact serves (serves_osMboxCreate s pmsg)
  | mboxPend pevent timeout => exact spared_osMboxPend mem away pevent timeout
  | mboxPost pevent pmsg => exact posts (serves_osMboxPostOpt s pevent pmsg _)
  | mboxPostOpt pevent pmsg opt => exact posts (serves_osMboxPostOpt s pevent pmsg opt)
  | mboxAccept pevent => exact serves (serves_osMboxAccept s pevent)
  | mboxPendAbort pevent opt =>
      exact serves (serves_osPendAbort s .mbox pevent opt)
  | mboxDel pevent opt => exact serves (serves_osEventDel s .mbox pevent opt)
  | qCreate start size => exact serves (serves_osQCreate s start size)
  | qPend pevent timeout => exact spared_osQPend mem away pevent timeout
  | qPost pevent pmsg => exact posts (serves_osQPostOpt s pevent pmsg _)
  | qPostFront pevent pmsg => exact posts (serves_osQPostOpt s pevent pmsg _)
  | qPostOpt pevent pmsg opt => exact posts (serves_osQPostOpt s pevent pmsg opt)
  | qAccept pevent => exact serves (serves_osQAccept s pevent)
  | qFlush pevent => exact serves (serves_osQFlush s pevent)
  | qPendAbort pevent opt => exact serves (serves_osPendAbort s .q pevent opt)
  | qDel pevent opt => exact serves (serves_osEventDel s .q pevent opt)
  | taskCreate prio => exact spared_osTaskCreate mem away s prio
  | taskDel prio => exact spared_osTaskDel mem away s undeleted
  | taskSuspend prio => exact spared_osTaskSuspend mem away prio
  | taskResume prio => exact spared_osTaskResume mem away prio
  | timeDly ticks => exact spared_osTimeDly mem away ticks
  | timeDlyHMSM hours minutes seconds ms => exact spared_osTimeDlyHMSM mem away ..
  | timeDlyResume prio => exact spared_osTimeDlyResume mem away s unresumed
  | timeSet ticks => exact ⟨mem, .refl _, rfl⟩
  | schedLock => exact spared_osSchedLock mem
  | schedUnlock => exact spared_osSchedUnlock mem away

end Exec

/-! ### The steps that are no calls -/

/-- Two kernels with the same tasks and events: the scheduler has chosen anew at most. -/
structure SameTasks (k k' : Kernel) : Prop where
  list : k'.OSTCBList = k.OSTCBList
  tcb : k'.OSTCBTbl = k.OSTCBTbl
  event : k'.OSEventTbl = k.OSEventTbl
  pc : k'.pc = k.pc
  cur : k'.OSTCBCur = k.OSTCBCur
  lock : k'.OSLockNesting = k.OSLockNesting

theorem SameTasks.refl (k : Kernel) : SameTasks k k := ⟨rfl, rfl, rfl, rfl, rfl, rfl⟩

theorem SameTasks.spared (same : SameTasks k k') (mem : i ∈ k.OSTCBList) : Spared k k' i :=
  ⟨by rwa [same.list], .of_eq (by rw [same.tcb]), by rw [same.pc]⟩

theorem sameTasks_reschedule (k : Kernel) : SameTasks k k.reschedule := by
  rw [reschedule_eq]
  exact ⟨rfl, rfl, rfl, rfl, rfl, rfl⟩

theorem sameTasks_osSched (k : Kernel) : SameTasks k k.osSched := by
  unfold Kernel.osSched
  split_ifs
  · exact sameTasks_reschedule k
  · exact .refl k

theorem sameTasks_osIntEnter (k : Kernel) : SameTasks k k.osIntEnter := by
  unfold Kernel.osIntEnter
  split_ifs <;> exact ⟨rfl, rfl, rfl, rfl, rfl, rfl⟩

theorem sameTasks_osIntExit (k : Kernel) : SameTasks k k.osIntExit := by
  simp only [Kernel.osIntExit]
  split_ifs
  · rw [reschedule_eq]
    exact ⟨rfl, rfl, rfl, rfl, rfl, rfl⟩
  · exact ⟨rfl, rfl, rfl, rfl, rfl, rfl⟩
  · exact .refl k

/-- The running task goes through `OS_Sched` and on to another place in the same call. -/
theorem schedStep_cases (k : Kernel) :
    k.schedStep = k ∨ ∃ place, place.waitsFor = (k.pc k.OSTCBCur).waitsFor ∧
      k.schedStep = k.osSched.setPc k.OSTCBCur place := by
  unfold Kernel.schedStep
  split
  case h_1 here => exact Or.inr ⟨_, by rw [here]; rfl, rfl⟩
  case h_2 here => exact Or.inr ⟨_, by rw [here]; rfl, rfl⟩
  all_goals exact Or.inl rfl

theorem pendEndStep_cases (k : Kernel) :
    k.pendEndStep = k ∨ ∃ kind e, k.pendEndStep = (k.osPendEnd kind e).1 := by
  unfold Kernel.pendEndStep
  split
  · exact Or.inr ⟨_, _, rfl⟩
  all_goals exact Or.inl rfl

/-- **Every step** leaves the tasks alone that are on no wait list, unless it is about
them. -/
theorem Consistent.spared_step (c : Consistent k) (mem : i ∈ k.OSTCBList)
    (free : ∀ e, ¬ (k.OSTCBTbl i).Registered e) {a : Act}
    (away : k.InTask → k.pc k.OSTCBCur = .user → i ≠ k.OSTCBCur)
    (undeleted : k.Undeleted i a) (unresumed : k.Unresumed i a ∨ (k.OSTCBTbl i).OSTCBDly = 0)
    (notEnd : a = .pendEnd → k.Enabled a → i ≠ k.OSTCBCur)
    (noTick : a = .tick → (k.OSTCBTbl i).OSTCBDly = 0) : Spared k (k.step a) i := by
  unfold Kernel.step
  split_ifs with enabled
  · cases a with
    | call a =>
        refine spared_exec mem free (fun top => ?_) c.sound a undeleted unresumed
        obtain ⟨inTask, user, -⟩ := Kernel.InCall.task enabled (by omega)
        exact away inTask user
    | sched =>
        rcases schedStep_cases k with same | ⟨place, waitsFor, same⟩
        · rw [same]
          exact .refl mem
        · rw [same]
          have spared := (sameTasks_osSched k).spared mem
          refine ⟨spared.mem, spared.tcb, ?_⟩
          -- the running task itself stays in its call
          rcases eq_or_ne i k.OSTCBCur with rfl | other
          · exact (congrArg Pc.waitsFor (Function.update_self ..)).trans waitsFor
          · exact (congrArg Pc.waitsFor (Function.update_of_ne other ..)).trans spared.place
    | pendEnd =>
        have other := notEnd rfl enabled
        rcases pendEndStep_cases k with same | ⟨kind, e, same⟩
        · rw [same]
          exact .refl mem
        · rw [same, osPendEnd_eq]
          exact ⟨mem, .of_eq (Function.update_of_ne other ..),
            congrArg Pc.waitsFor (Function.update_of_ne other ..)⟩
    | intEnter => exact (sameTasks_osIntEnter k).spared mem
    | tick =>
        -- the clock changes the tasks that are delayed, and this one is not
        have w := c.wakes_osTimeTick enabled
        exact ⟨by rw [w.same.list]; exact mem, .of_eq (w.spares i free fun _ => noTick rfl),
          by rw [w.pc]⟩
    | intExit => exact (sameTasks_osIntExit k).spared mem
    | pendSV => exact ⟨mem, .refl _, rfl⟩
  · exact .refl mem

end Ucos

end CannonCar
