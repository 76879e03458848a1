import CannonCar.Ucos.Wakes

/-!
# Posting, accepting, aborting and deleting

The services on semaphores, mailboxes and queues that do not wait.  Each of them leaves
the kernel as after a `Wakes`, or goes on to `OS_Sched` from there: this is `Serves`.  Only
a post that has been told not to call `OS_Sched` makes a task ready without going there.

## What is load-bearing

A change of one event block must not make something available while tasks are registered with the
event: `Sound.wakes_event` is the one place where this is asked, and every service that stores
a message or a count gives the reason there, which is that it has found the wait list empty.

`Serves` separates the two ways a service can leave: with the scheduler's choice as it was, or on
its way to `OS_Sched`.  The argument checks of a service leave the kernel as it is and are
`Serves` by reflexivity.
-/

namespace CannonCar

namespace Ucos

open TwoLevel

variable {k k' : Kernel} {e : EventId} {kind : EventKind} {v : Event} {delays : Prop}

/-- What a service that does not wait leaves; `noSched` is its option to leave out the call
of `OS_Sched`. -/
def Serves (noSched : Bool) (k k' : Kernel) : Prop :=
  (Wakes False k k' ∧ (noSched = false → k'.readySet = k.readySet)) ∨
    ∃ k'', Wakes False k k'' ∧ k' = k''.toSched .sched

variable {noSched : Bool}

theorem Serves.refl (s : Sound k) : Serves noSched k k := Or.inl ⟨.refl s, fun _ => rfl⟩

theorem Wakes.readySet_eq (w : Wakes False k k') (tcb : k'.OSTCBTbl = k.OSTCBTbl) :
    k'.readySet = k.readySet := by
  simp only [Kernel.readySet, w.same.prioTbl, tcb]

/-- A service that leaves all tasks alone. -/
theorem Wakes.serves (w : Wakes False k k') (tcb : k'.OSTCBTbl = k.OSTCBTbl) :
    Serves noSched k k' :=
  Or.inl ⟨w, fun _ => w.readySet_eq tcb⟩

/-- A service that goes on to `OS_Sched`. -/
theorem Wakes.serves_toSched (w : Wakes False k k') : Serves noSched k (k'.toSched .sched) :=
  Or.inr ⟨k', w, rfl⟩

/-! ### Event blocks -/

/-- **The rule for a change of one event block.**  Its wait list stays; it may change its
kind, and offer something, only when nobody is registered with it. -/
theorem Sound.wakes_event (s : Sound k) (same : SameSched k k') (pc : k'.pc = k.pc)
    (tcb : k'.OSTCBTbl = k.OSTCBTbl) (rdy : k'.OSRdy = k.OSRdy)
    (free : k'.OSTCBFreeList = k.OSTCBFreeList) (ctr : k'.OSTaskCtr = k.OSTaskCtr)
    (event : k'.OSEventTbl = Function.update k.OSEventTbl e v)
    (wait : Represents v.wait (k.waitSet e))
    (type : v.OSEventType = (k.OSEventTbl e).OSEventType ∨ k.waitSet e = ∅)
    (available : v.Available → k.waitSet e = ∅) (pq : v.pq.Ok)
    (unused : ∀ e' ∈ k'.OSEventFreeList, if e' = e then v.OSEventType = none
      else e' ∈ k.OSEventFreeList)
    (pool : k'.OSEventFreeList.Nodup) : Wakes delays k k' := by
  have waitSet : ∀ e', k'.waitSet e' = k.waitSet e' := by
    intro e'
    simp only [Kernel.waitSet, same.prioTbl, tcb]
  have readySet : k'.readySet = k.readySet := by
    simp only [Kernel.readySet, same.prioTbl, tcb]
  have here : k'.OSEventTbl e = v := by rw [event, Function.update_self]
  have there : ∀ e', e' ≠ e → k'.OSEventTbl e' = k.OSEventTbl e' := by
    intro e' other
    rw [event, Function.update_of_ne other]
  refine ⟨⟨?_, same, pc, fun i => by rw [tcb], fun i runs => by rwa [tcb]⟩,
    fun i _ _ => by rw [tcb]⟩
  constructor
  case slot => rw [same.prioTbl, same.list, tcb]; exact s.slot
  case listed => rw [same.prioTbl, same.list, tcb]; exact s.listed
  case blocks => rw [same.list, free]; exact s.blocks
  case ctr => rw [same.list, ctr]; exact s.ctr
  case ready => rw [rdy, readySet]; exact s.ready
  case wait =>
    intro e'
    rw [waitSet]
    by_cases block : e' = e
    · rw [block, here]
      exact wait
    · rw [there e' block]
      exact s.wait e'
  case phase => rw [same.list, pc, tcb]; exact s.phase
  case typed =>
    intro i mem e' registered
    rw [same.list] at mem
    rw [tcb] at registered
    obtain ⟨kind, place, was⟩ := s.typed i mem e' registered
    refine ⟨kind, by rw [pc, place], ?_⟩
    by_cases block : e' = e
    · subst block
      rw [here]
      refine (type.resolve_right fun empty => ?_).trans was
      have : (k.OSTCBTbl i).OSTCBPrio ∈ k.waitSet e' := ⟨i, s.listed i mem, registered⟩
      rw [empty] at this
      exact Set.notMem_empty _ this
    · rw [there e' block, was]
  case noLostWakeup =>
    intro e' offers
    rw [waitSet]
    by_cases block : e' = e
    · rw [block, here] at offers
      rw [block]
      exact available offers
    · rw [there e' block] at offers
      exact s.noLostWakeup e' offers
  case unused =>
    intro e' mem
    have := unused e' mem
    split_ifs at this with block
    · rw [block, here, this]
    · rw [there e' block, s.unused e' this]
  case eventPool => exact pool
  case queue =>
    intro e'
    by_cases block : e' = e
    · rw [block, here]
      exact pq
    · rw [there e' block]
      exact s.queue e'

/-- A block that keeps its kind. -/
theorem Sound.wakes_setEvent (s : Sound k) (wait : v.wait = (k.OSEventTbl e).wait)
    (type : v.OSEventType = (k.OSEventTbl e).OSEventType)
    (available : v.Available → k.waitSet e = ∅) (pq : v.pq.Ok) :
    Wakes delays k (k.setEvent e v) := by
  refine s.wakes_event (v := v) ⟨rfl, rfl, rfl, rfl, rfl, rfl, rfl, rfl, rfl, rfl⟩ rfl rfl rfl rfl
    rfl
    rfl (wait ▸ s.wait e) (Or.inl type) available pq (fun e' mem => ?_) s.eventPool
  split_ifs with block
  · rw [type, ← block]
    exact s.unused e' mem
  · exact mem

theorem Sound.serves_setEvent (s : Sound k) (wait : v.wait = (k.OSEventTbl e).wait)
    (type : v.OSEventType = (k.OSEventTbl e).OSEventType)
    (available : v.Available → k.waitSet e = ∅) (pq : v.pq.Ok) :
    Serves noSched k (k.setEvent e v) :=
  (s.wakes_setEvent wait type available pq).serves rfl

/-- Nobody is registered with a block that is not in use. -/
theorem Sound.waitSet_eq_empty (s : Sound k) (free : (k.OSEventTbl e).OSEventType = none) :
    k.waitSet e = ∅ := by
  refine Set.eq_empty_of_forall_notMem ?_
  rintro p ⟨i, here, registered⟩
  obtain ⟨kind, -, type⟩ := s.typed i (s.slot p i here).1 e registered
  rw [free] at type
  exact absurd type (by simp)

/-- Taking a block from the free list. -/
theorem Sound.wakes_osEventCreate (s : Sound k) (pq : v.pq.Ok) :
    Wakes delays k (k.osEventCreate v).1 := by
  unfold Kernel.osEventCreate
  split
  · exact .refl s
  · next e free eq =>
    have distinct := s.eventPool
    rw [eq, List.nodup_cons] at distinct
    have empty := s.waitSet_eq_empty (s.unused e (by rw [eq]; exact List.mem_cons_self))
    refine s.wakes_event (v := { v with wait := Table.empty })
      ⟨rfl, rfl, rfl, rfl, rfl, rfl, rfl, rfl, rfl, rfl⟩ rfl rfl rfl rfl rfl rfl ?_ (Or.inr empty)
      (fun _ => empty) pq (fun e' mem => ?_) distinct.2
    · rw [empty]
      exact represents_empty
    · have other : e' ≠ e := by
        rintro rfl
        exact distinct.1 mem
      rw [if_neg other, eq]
      exact List.mem_cons_of_mem e mem

/-- Giving a block back that nobody is registered with. -/
theorem Sound.wakes_osEventFree (s : Sound k) (type : (k.OSEventTbl e).OSEventType = some kind)
    (empty : k.waitSet e = ∅) : Wakes delays k (k.osEventFree kind e) := by
  have used : e ∉ k.OSEventFreeList := fun mem => by
    rw [s.unused e mem] at type
    exact absurd type (by simp)
  generalize block : ({ k.OSEventTbl e with
    OSEventType := none, OSEventPtr := 0, OSEventCnt := 0 } : Event) = v
  have fields : (k.osEventFree kind e).OSEventTbl = Function.update k.OSEventTbl e v ∧
      (k.osEventFree kind e).OSEventFreeList = e :: k.OSEventFreeList := by
    unfold Kernel.osEventFree
    rw [← block]
    split_ifs <;> exact ⟨rfl, rfl⟩
  have rest : SameSched k (k.osEventFree kind e) ∧ (k.osEventFree kind e).pc = k.pc ∧
      (k.osEventFree kind e).OSTCBTbl = k.OSTCBTbl ∧ (k.osEventFree kind e).OSRdy = k.OSRdy ∧
      (k.osEventFree kind e).OSTCBFreeList = k.OSTCBFreeList ∧
      (k.osEventFree kind e).OSTaskCtr = k.OSTaskCtr := by
    unfold Kernel.osEventFree
    split_ifs <;>
      exact ⟨⟨rfl, rfl, rfl, rfl, rfl, rfl, rfl, rfl, rfl, rfl⟩, rfl, rfl, rfl, rfl, rfl⟩
  obtain ⟨same, pc, tcb, rdy, free, ctr⟩ := rest
  refine s.wakes_event same pc tcb rdy free ctr fields.1 ?_ (Or.inr empty) (fun _ => empty) ?_
    (fun e' mem => ?_) ?_
  · rw [← block]
    exact s.wait e
  · rw [← block]
    exact s.queue e
  · rw [fields.2, List.mem_cons] at mem
    split_ifs with same
    · rw [← block]
    · exact mem.resolve_left same
  · rw [fields.2, List.nodup_cons]
    exact ⟨used, s.eventPool⟩

/-- A variable that no table depends on. -/
theorem Wakes.of_same (s : Sound k) (same : SameSched k k') (tcb : k'.OSTCBTbl = k.OSTCBTbl)
    (rdy : k'.OSRdy = k.OSRdy) (free : k'.OSTCBFreeList = k.OSTCBFreeList)
    (ctr : k'.OSTaskCtr = k.OSTaskCtr) (event : k'.OSEventTbl = k.OSEventTbl)
    (eventFree : k'.OSEventFreeList = k.OSEventFreeList) (pc : k'.pc = k.pc) :
    Wakes delays k k' := by
  refine s.wakes_event (e := 0) (v := k.OSEventTbl 0) same pc tcb rdy free ctr
    (by rw [event, Function.update_eq_self]) (s.wait 0) (Or.inl rfl) (s.noLostWakeup 0) (s.queue 0)
    (fun e' mem => ?_) (by rw [eventFree]; exact s.eventPool)
  rw [eventFree] at mem
  split_ifs with block
  · rw [← block]
    exact s.unused e' mem
  · exact mem

/-! ### The services -/

section Services

variable (s : Sound k)

/-- With nobody registered, whatever a block offers is taken by nobody. -/
theorem Sound.waitSet_of_grp (s : Sound k) (group : (k.OSEventTbl e).wait.grp = 0) :
    k.waitSet e = ∅ :=
  s.grp_eq_zero_iff.mp group

include s

theorem serves_osPostWaiting {pmsg : ℕ} (opt : Kernel.PostOpt)
    (type : (k.OSEventTbl e).OSEventType = some kind)
    (group : (k.OSEventTbl e).wait.grp ≠ 0) :
    Serves opt.noSched k (k.osPostWaiting kind e pmsg opt) := by
  have woken : Wakes False k (if opt.broadcast = true then
      k.osEventTaskRdyAll e pmsg kind.osStat .pendOk 64
      else k.osEventTaskRdy e pmsg kind.osStat .pendOk) := by
    split_ifs
    · exact (s.wakes_osEventTaskRdyAll pmsg type (by simp) fun p _ => Nat.le_add_left 64 p).1
    · exact (s.wakes_osEventTaskRdy (s.nonempty_of_grp group) pmsg type (by simp)).1
  unfold Kernel.osPostWaiting
  generalize (if opt.broadcast = true then _ else _ : Kernel) = k' at woken ⊢
  simp only
  split_ifs with deferred
  · exact Or.inl ⟨woken, fun now => absurd deferred (by simp [now])⟩
  · exact woken.serves_toSched

theorem serves_osPendAbort (kind : EventKind) (pevent : Option EventId) (opt : ℕ) :
    Serves noSched k (k.osPendAbort kind pevent opt).1 := by
  unfold Kernel.osPendAbort
  split
  · exact .refl s
  · next e =>
    split_ifs with type group broadcast
    · exact .refl s
    · exact (s.wakes_osEventTaskRdyAll 0 (not_not.mp type) (by simp)
        fun p _ => Nat.le_add_left 64 p).1.serves_toSched
    · exact (s.wakes_osEventTaskRdy (s.nonempty_of_grp group) 0 (not_not.mp type)
        (by simp)).1.serves_toSched
    · exact .refl s

omit s in
theorem tcb_osEventFree (k : Kernel) (kind : EventKind) (e : EventId) :
    (k.osEventFree kind e).OSTCBTbl = k.OSTCBTbl := by
  unfold Kernel.osEventFree
  split_ifs <;> rfl

theorem Sound.wakes_delAlways (type : (k.OSEventTbl e).OSEventType = some kind) :
    Wakes False k ((k.osEventTaskRdyAll e 0 kind.osStat .pendOk 64).osEventFree kind e) := by
  obtain ⟨woken, empty⟩ := s.wakes_osEventTaskRdyAll 0 type (show PendStat.pendOk ≠ .pendTo by simp)
    fun p _ => Nat.le_add_left 64 p
  have type' := (sameEvents_osEventTaskRdyAll e 0 kind.osStat .pendOk 64 k).type e
  exact woken.trans (woken.sound.wakes_osEventFree (type'.trans type) empty)

theorem serves_osEventDel (kind : EventKind) (pevent : Option EventId) (opt : ℕ) :
    Serves noSched k (k.osEventDel kind pevent opt).1 := by
  unfold Kernel.osEventDel
  split
  · exact .refl s
  · next e =>
    simp only
    split_ifs with type nested noPend group always waiting
    · exact .refl s
    · exact .refl s
    · exact (s.wakes_osEventFree (not_not.mp type) (s.waitSet_of_grp group)).serves
        (tcb_osEventFree k kind e)
    · exact .refl s
    · exact (s.wakes_delAlways (not_not.mp type)).serves_toSched
    · refine (s.wakes_delAlways (not_not.mp type)).serves ?_
      rw [tcb_osEventFree, Kernel.osEventTaskRdyAll, if_neg waiting]
    · exact .refl s

omit s in
theorem tcb_osEventCreate (k : Kernel) (v : Event) :
    (k.osEventCreate v).1.OSTCBTbl = k.OSTCBTbl := by
  unfold Kernel.osEventCreate
  split <;> rfl

theorem serves_osSemCreate (cnt : ℕ) : Serves noSched k (k.osSemCreate cnt).1 := by
  unfold Kernel.osSemCreate
  split_ifs
  · exact .refl s
  · exact (s.wakes_osEventCreate (OSQ.ok_create _ _)).serves (tcb_osEventCreate k _)

theorem serves_osMboxCreate (pmsg : ℕ) : Serves noSched k (k.osMboxCreate pmsg).1 := by
  unfold Kernel.osMboxCreate
  split_ifs
  · exact .refl s
  · exact (s.wakes_osEventCreate (OSQ.ok_create _ _)).serves (tcb_osEventCreate k _)

theorem serves_osQCreate (start : ℕ → ℕ) (size : ℕ) :
    Serves noSched k (k.osQCreate start size).1 := by
  unfold Kernel.osQCreate
  split_ifs
  · exact .refl s
  · exact .refl s
  · have created : Wakes False k (k.osEventCreate
        ⟨some .q, 0, 0, Table.empty, .create start size⟩).1 :=
      s.wakes_osEventCreate (OSQ.ok_create start size)
    have tcb := tcb_osEventCreate k ⟨some .q, 0, 0, Table.empty, .create start size⟩
    split
    · next eq =>
      rw [eq] at created tcb
      refine Wakes.serves (created.trans ?_) tcb
      exact .of_same created.sound ⟨rfl, rfl, rfl, rfl, rfl, rfl, rfl, rfl, rfl, rfl⟩
        rfl rfl rfl rfl rfl rfl rfl
    · next eq =>
      rw [eq] at created tcb
      exact created.serves tcb

theorem serves_osSemPost (pevent : Option EventId) : Serves noSched k (k.osSemPost pevent).1 := by
  unfold Kernel.osSemPost
  split
  · exact .refl s
  · next e =>
    simp only
    split_ifs with type group room
    · exact .refl s
    · exact (s.wakes_osEventTaskRdy (s.nonempty_of_grp group) 0 (not_not.mp type)
        (by simp)).1.serves_toSched
    · exact s.serves_setEvent rfl rfl (fun _ => s.waitSet_of_grp (not_not.mp group))
        (s.queue e)
    · exact .refl s

theorem serves_osSemAccept (pevent : Option EventId) :
    Serves noSched k (k.osSemAccept pevent).1 := by
  unfold Kernel.osSemAccept
  split
  · exact .refl s
  · next e =>
    simp only
    split_ifs with type count
    · exact .refl s
    · have offers : (k.OSEventTbl e).Available := by
        rw [Event.Available, not_not.mp type]
        exact count
      exact s.serves_setEvent rfl rfl (fun _ => s.noLostWakeup e offers) (s.queue e)
    · exact .refl s

theorem serves_osSemSet (pevent : Option EventId) (cnt : ℕ) :
    Serves noSched k (k.osSemSet pevent cnt).1 := by
  unfold Kernel.osSemSet
  split
  · exact .refl s
  · next e =>
    simp only
    split_ifs with type count group
    · exact .refl s
    · have offers : (k.OSEventTbl e).Available := by
        rw [Event.Available, not_not.mp type]
        exact count
      exact s.serves_setEvent rfl rfl (fun _ => s.noLostWakeup e offers) (s.queue e)
    · exact s.serves_setEvent rfl rfl (fun _ => s.waitSet_of_grp group) (s.queue e)
    · exact .refl s

theorem serves_osMboxPostOpt (pevent : Option EventId) (pmsg : ℕ) (opt : Kernel.PostOpt) :
    Serves opt.noSched k (k.osMboxPostOpt pevent pmsg opt).1 := by
  unfold Kernel.osMboxPostOpt
  split
  · exact .refl s
  · next e =>
    simp only
    split_ifs with null type group full
    · exact .refl s
    · exact .refl s
    · exact serves_osPostWaiting s opt (not_not.mp type) group
    · exact .refl s
    · exact s.serves_setEvent rfl rfl (fun _ => s.waitSet_of_grp (not_not.mp group))
        (s.queue e)

theorem serves_osMboxAccept (pevent : Option EventId) :
    Serves noSched k (k.osMboxAccept pevent).1 := by
  unfold Kernel.osMboxAccept
  split
  · exact .refl s
  · next e =>
    simp only
    split_ifs with type
    · exact .refl s
    · refine s.serves_setEvent rfl rfl (fun offers => ?_) (s.queue e)
      rw [Event.Available, not_not.mp type] at offers
      exact absurd rfl offers

theorem serves_osQPostOpt (pevent : Option EventId) (pmsg : ℕ) (opt : Kernel.PostOpt) :
    Serves opt.noSched k (k.osQPostOpt pevent pmsg opt).1 := by
  unfold Kernel.osQPostOpt
  split
  · exact .refl s
  · next e =>
    simp only
    split_ifs with type group full front
    · exact .refl s
    · exact serves_osPostWaiting s opt (not_not.mp type) group
    · exact .refl s
    · exact s.serves_setEvent rfl rfl (fun _ => s.waitSet_of_grp (not_not.mp group))
        ((s.queue e).postFront (not_le.mp full))
    · exact s.serves_setEvent rfl rfl (fun _ => s.waitSet_of_grp (not_not.mp group))
        ((s.queue e).post (not_le.mp full))

theorem serves_osQAccept (pevent : Option EventId) : Serves noSched k (k.osQAccept pevent).1 := by
  unfold Kernel.osQAccept
  split
  · exact .refl s
  · next e =>
    simp only
    split_ifs with type count
    · exact .refl s
    · have offers : (k.OSEventTbl e).Available := by
        rw [Event.Available, not_not.mp type]
        exact count
      exact s.serves_setEvent rfl rfl (fun _ => s.noLostWakeup e offers)
        ((s.queue e).get count)
    · exact .refl s

theorem serves_osQFlush (pevent : Option EventId) : Serves noSched k (k.osQFlush pevent).1 := by
  unfold Kernel.osQFlush
  split
  · exact .refl s
  · next e =>
    simp only
    split_ifs with type
    · exact .refl s
    · refine s.serves_setEvent rfl rfl (fun offers => ?_) (OSQ.ok_flush _)
      rw [Event.Available, not_not.mp type] at offers
      exact absurd offers (lt_irrefl 0)

end Services

end Ucos

end CannonCar
