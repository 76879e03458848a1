import CannonCar.Ucos.Steps

/-!
# The invariant of the kernel's tables

What the tables say and what the control blocks say agree: `Sound` is that agreement.  A
priority is in the ready list exactly when the task of that priority may run, and on the
wait list of an event exactly when the task waits for it or its wait has timed out and it
has not run since.

Most services change one control block, the bits of its priority and its place in the
code.  `Sound.change` is the rule for all of them.

## What is load-bearing

* `readySet` and `waitSet` are read off the control blocks; the two-level tables have to represent
  them.  So the invariant is an equation between sets for each table, and the rules say by which
  element the sets change.
* A task whose wait has timed out stays on the wait list until it runs (`Tcb.Registered`): the tick
  takes its status off and not its bit.  A post that comes then still finds it, and hands it
  the message.
* `phase` ties a control block to the place of its task.  Without it nothing would keep a task
  that is not in a pend call from being on a wait list.
* `noLostWakeup` is part of the invariant and not a consequence of it: it is what makes handing a
  message to a waiting task the same as putting it in and taking it out.
-/

namespace CannonCar

namespace Ucos

open TwoLevel

/-! ### Status words -/

/-- The status of a task that waits for a kind of event, or for none, and may have been
suspended. -/
def statOf (kind : Option EventKind) (suspended : Bool) : BitVec 8 :=
  kind.elim osStatRdy EventKind.osStat ||| if suspended then osStatSuspend else osStatRdy

section Status

variable (kind : EventKind) (waits : Option EventKind) (suspended : Bool)

theorem statOf_and_suspend :
    statOf waits suspended &&& osStatSuspend = osStatRdy ↔ suspended = false := by
  rcases waits with _ | kind <;> cases suspended <;> try cases kind
  all_goals decide

theorem statOf_and_pendAny :
    statOf waits suspended &&& osStatPendAny ≠ osStatRdy ↔ waits ≠ none := by
  rcases waits with _ | kind <;> cases suspended <;> try cases kind
  all_goals decide

theorem statOf_eq_rdy : statOf waits suspended = osStatRdy ↔ waits = none ∧ suspended = false := by
  rcases waits with _ | kind <;> cases suspended <;> try cases kind
  all_goals decide

theorem statOf_or_suspend : statOf waits suspended ||| osStatSuspend = statOf waits true := by
  rcases waits with _ | kind <;> cases suspended <;> try cases kind
  all_goals decide

theorem statOf_clear_suspend :
    statOf waits suspended &&& ~~~osStatSuspend = statOf waits false := by
  rcases waits with _ | kind <;> cases suspended <;> try cases kind
  all_goals decide

theorem statOf_clear_pendAny :
    statOf waits suspended &&& ~~~osStatPendAny = statOf none suspended := by
  rcases waits with _ | kind <;> cases suspended <;> try cases kind
  all_goals decide

theorem statOf_clear_kind :
    statOf (some kind) suspended &&& ~~~kind.osStat = statOf none suspended := by
  cases kind <;> cases suspended <;> decide

theorem statOf_none_clear_kind :
    statOf none suspended &&& ~~~kind.osStat = statOf none suspended := by
  cases kind <;> cases suspended <;> decide

theorem statOf_or_kind : statOf none suspended ||| kind.osStat = statOf (some kind) suspended := by
  cases kind <;> cases suspended <;> decide

end Status

/-! ### What the control blocks say -/

/-- The task may run. -/
def Tcb.Runnable (t : Tcb) : Prop := t.OSTCBStat = osStatRdy ∧ t.OSTCBDly = 0

instance (t : Tcb) : Decidable t.Runnable := inferInstanceAs (Decidable (_ ∧ _))

/-- The task waits for the event, or its wait for it has timed out. -/
def Tcb.Registered (pevent : EventId) (t : Tcb) : Prop :=
  t.OSTCBEventPtr = some pevent ∧
    (t.OSTCBStat &&& osStatPendAny ≠ osStatRdy ∨ t.OSTCBStatPend = .pendTo)

instance (pevent : EventId) (t : Tcb) : Decidable (t.Registered pevent) :=
  inferInstanceAs (Decidable (_ ∧ _))

/-- The event that a pend call is for. -/
def Pc.waitsFor : Pc → Option (EventKind × EventId)
  | .user | .sched => none
  | .pendSched kind pevent | .pend kind pevent => some (kind, pevent)

/-- What a control block can hold in a pend call, or outside one. -/
def Phase : Option (EventKind × EventId) → Tcb → Prop
  | none, t => (∃ suspended, t.OSTCBStat = statOf none suspended) ∧ t.OSTCBEventPtr = none
  | some (kind, pevent), t =>
      t.OSTCBEventPtr = some pevent ∧ ∃ suspended,
        (t.OSTCBStat = statOf (some kind) suspended ∧ t.OSTCBStatPend = .pendOk) ∨
        (t.OSTCBStat = statOf none suspended ∧ t.OSTCBDly = 0)

/-- Something that a pend call takes without waiting. -/
def Event.Available (v : Event) : Prop :=
  match v.OSEventType with
  | some .sem => 0 < v.OSEventCnt
  | some .mbox => v.OSEventPtr ≠ 0
  | some .q => 0 < v.pq.OSQEntries
  | none => False

namespace Kernel

/-- The priorities of the tasks that may run. -/
def readySet (k : Kernel) : Set ℕ :=
  {p | ∃ i, k.OSTCBPrioTbl p = .tcb i ∧ (k.OSTCBTbl i).Runnable}

/-- The priorities of the tasks that are registered with an event. -/
def waitSet (k : Kernel) (pevent : EventId) : Set ℕ :=
  {p | ∃ i, k.OSTCBPrioTbl p = .tcb i ∧ (k.OSTCBTbl i).Registered pevent}

end Kernel

/-- The tables and the control blocks agree. -/
structure Sound (k : Kernel) : Prop where
  /-- A slot holds a task of its priority. -/
  slot : ∀ p i, k.OSTCBPrioTbl p = .tcb i →
    i ∈ k.OSTCBList ∧ (k.OSTCBTbl i).OSTCBPrio = p ∧ p < 64
  /-- A task is in the slot of its priority. -/
  listed : ∀ i ∈ k.OSTCBList, k.OSTCBPrioTbl (k.OSTCBTbl i).OSTCBPrio = .tcb i
  /-- Every control block is in use or free. -/
  blocks : (k.OSTCBList ++ k.OSTCBFreeList).Perm (List.range osTcbs)
  ctr : k.OSTaskCtr = k.OSTCBList.length
  ready : Represents k.OSRdy k.readySet
  wait : ∀ e, Represents (k.OSEventTbl e).wait (k.waitSet e)
  phase : ∀ i ∈ k.OSTCBList, Phase (k.pc i).waitsFor (k.OSTCBTbl i)
  /-- A task is registered with the event of its pend call. -/
  typed : ∀ i ∈ k.OSTCBList, ∀ e, (k.OSTCBTbl i).Registered e →
    ∃ kind, (k.pc i).waitsFor = some (kind, e) ∧ (k.OSEventTbl e).OSEventType = some kind
  /-- Nobody waits for what is there. -/
  noLostWakeup : ∀ e, (k.OSEventTbl e).Available → k.waitSet e = ∅
  unused : ∀ e ∈ k.OSEventFreeList, (k.OSEventTbl e).OSEventType = none
  eventPool : k.OSEventFreeList.Nodup
  queue : ∀ e, (k.OSEventTbl e).pq.Ok

/-- Two kernels that differ in the control block of one task, the tables and its place. -/
structure OnlyTask (k k' : Kernel) (i : TcbId) (t : Tcb) : Prop where
  prioTbl : k'.OSTCBPrioTbl = k.OSTCBPrioTbl
  list : k'.OSTCBList = k.OSTCBList
  free : k'.OSTCBFreeList = k.OSTCBFreeList
  ctr : k'.OSTaskCtr = k.OSTaskCtr
  eventFree : k'.OSEventFreeList = k.OSEventFreeList
  tcb : k'.OSTCBTbl = Function.update k.OSTCBTbl i t
  pc : ∀ j, j ≠ i → k'.pc j = k.pc j
  event : ∀ e, k'.OSEventTbl e = { k.OSEventTbl e with wait := (k'.OSEventTbl e).wait }

section Change

variable {k k' : Kernel} {i : TcbId} {p : ℕ} {t : Tcb}

theorem Sound.pool (s : Sound k) : (k.OSTCBList ++ k.OSTCBFreeList).Nodup :=
  s.blocks.nodup_iff.mpr List.nodup_range

theorem Tcb.not_registered_of_phase {t : Tcb} (outside : Phase none t) (e : EventId) :
    ¬ t.Registered e := by
  rintro ⟨ptr, -⟩
  rw [outside.2] at ptr
  exact absurd ptr (by simp)

/-- Different slots hold different tasks. -/
theorem Sound.ne_of_slot (s : Sound k) {q : ℕ} {j : TcbId} (here : k.OSTCBPrioTbl p = .tcb i)
    (there : k.OSTCBPrioTbl q = .tcb j) (other : q ≠ p) : j ≠ i := by
  rintro rfl
  exact other ((s.slot q j there).2.1.symm.trans (s.slot p j here).2.1)

/-- What a property of the control blocks says of the slots after the change. -/
theorem Sound.setOf_onlyTask (s : Sound k) (o : OnlyTask k k' i t)
    (here : k.OSTCBPrioTbl p = .tcb i) (P : Tcb → Prop) :
    {q | ∃ j, k'.OSTCBPrioTbl q = .tcb j ∧ P (k'.OSTCBTbl j)} =
      adjust p (P t) {q | ∃ j, k.OSTCBPrioTbl q = .tcb j ∧ P (k.OSTCBTbl j)} := by
  ext q
  simp only [adjust, Set.mem_ofPred_eq, o.prioTbl, o.tcb]
  by_cases same : q = p
  · subst same
    simp [here]
  · have others : ∀ j, k.OSTCBPrioTbl q = .tcb j →
        Function.update k.OSTCBTbl i t j = k.OSTCBTbl j :=
      fun j there => Function.update_of_ne (s.ne_of_slot here there same) ..
    simp only [same, false_and, not_false_eq_true, true_and, false_or, ne_eq]
    constructor
    · rintro ⟨j, there, holds⟩
      exact ⟨j, there, by rwa [others j there] at holds⟩
    · rintro ⟨j, there, holds⟩
      exact ⟨j, there, by rwa [others j there]⟩

/-- **The rule for a change of one task.**  The new control block and the tables must
agree, the task's place must fit it, and it must not begin to wait for what is there. -/
theorem Sound.change (s : Sound k) (o : OnlyTask k k' i t) (here : k.OSTCBPrioTbl p = .tcb i)
    (prio : t.OSTCBPrio = p)
    (ready : Represents k'.OSRdy (adjust p t.Runnable k.readySet))
    (wait : ∀ e, Represents (k'.OSEventTbl e).wait (adjust p (t.Registered e) (k.waitSet e)))
    (phase : Phase (k'.pc i).waitsFor t)
    (typed : ∀ e, t.Registered e → ∃ kind, (k'.pc i).waitsFor = some (kind, e) ∧
      (k.OSEventTbl e).OSEventType = some kind)
    (waits : ∀ e, t.Registered e → ¬ (k.OSEventTbl e).Available) : Sound k' := by
  have type : ∀ e, (k'.OSEventTbl e).OSEventType = (k.OSEventTbl e).OSEventType := by
    intro e
    rw [o.event]
  have available : ∀ e, (k'.OSEventTbl e).Available ↔ (k.OSEventTbl e).Available := by
    intro e
    rw [o.event]
    exact Iff.rfl
  have readySet : k'.readySet = adjust p t.Runnable k.readySet := s.setOf_onlyTask o here _
  have waitSet : ∀ e, k'.waitSet e = adjust p (t.Registered e) (k.waitSet e) :=
    fun e => s.setOf_onlyTask o here _
  have block : ∀ j, k'.OSTCBTbl j = if j = i then t else k.OSTCBTbl j := by
    intro j
    rw [o.tcb, Function.update_apply]
  constructor
  case slot =>
    intro q j there
    rw [o.prioTbl] at there
    rw [o.list, block]
    obtain ⟨mem, prio', lt⟩ := s.slot q j there
    by_cases same : j = i
    · subst same
      have places : q = p := prio'.symm.trans (s.slot p j here).2.1
      exact ⟨mem, by rw [if_pos rfl, prio, places], lt⟩
    · exact ⟨mem, by rw [if_neg same, prio'], lt⟩
  case listed =>
    intro j mem
    rw [o.list] at mem
    rw [o.prioTbl, block]
    by_cases same : j = i
    · rw [if_pos same, prio, same, here]
    · rw [if_neg same, s.listed j mem]
  case blocks => rw [o.list, o.free]; exact s.blocks
  case ctr => rw [o.list, o.ctr]; exact s.ctr
  case ready => rw [readySet]; exact ready
  case wait => exact fun e => by rw [waitSet]; exact wait e
  case phase =>
    intro j mem
    rw [o.list] at mem
    rw [block]
    by_cases same : j = i
    · rw [if_pos same, same]
      exact phase
    · rw [if_neg same, o.pc j same]
      exact s.phase j mem
  case typed =>
    intro j mem e
    rw [o.list] at mem
    rw [block, type]
    by_cases same : j = i
    · rw [if_pos same, same]
      exact typed e
    · rw [if_neg same, o.pc j same]
      exact s.typed j mem e
  case noLostWakeup =>
    intro e there
    rw [available] at there
    -- nobody was on the list, and the task is registered only with what offers nothing
    rw [waitSet, s.noLostWakeup e there, adjust_of_not fun registered => waits e registered there,
      Set.empty_sdiff]
  case unused => rw [o.eventFree]; exact fun e mem => (type e).trans (s.unused e mem)
  case eventPool => rw [o.eventFree]; exact s.eventPool
  case queue => exact fun e => by rw [o.event]; exact s.queue e

end Change

end Ucos

end CannonCar
