import CannonCar.Ucos.Sound

/-!
# Services that make tasks ready

Posting, aborting a wait, resuming a task, the clock tick and all changes of an event block
have in common that no task that may run is kept from running, and that the scheduler's
variables stay as they are.  `Wakes` says so, together with the invariant of the tables; it
composes, so that the loops over wait lists and over the task list are covered by one
round.  It also says which tasks are left alone: those that are registered with no event
and, if delays are counted, have none.

## What is load-bearing

`Wakes` is transitive and has the invariant in it, so that a service that wakes a task and then
changes the event, or a loop that wakes many, is a chain of steps of the same kind.  Its last
part, on the tasks that are left alone, is what delays and messages under way need later on.

`osEventTaskRdy` looks up the task through `OSTCBPrioTbl`; that there is one, and that it is the one
on the list, is `Sound`.  The rounds of the loop over a wait list are as many as priorities,
which is enough because each takes one off.
-/

namespace CannonCar

namespace Ucos

open TwoLevel

/-- The scheduler's variables and the slots are the same. -/
structure SameSched (k k' : Kernel) : Prop where
  prioTbl : k'.OSTCBPrioTbl = k.OSTCBPrioTbl
  list : k'.OSTCBList = k.OSTCBList
  cur : k'.OSTCBCur = k.OSTCBCur
  highRdy : k'.OSTCBHighRdy = k.OSTCBHighRdy
  prioCur : k'.OSPrioCur = k.OSPrioCur
  prioHighRdy : k'.OSPrioHighRdy = k.OSPrioHighRdy
  int : k'.OSIntNesting = k.OSIntNesting
  lock : k'.OSLockNesting = k.OSLockNesting
  running : k'.OSRunning = k.OSRunning
  pendSV : k'.pendSV = k.pendSV

theorem SameSched.refl (k : Kernel) : SameSched k k :=
  ⟨rfl, rfl, rfl, rfl, rfl, rfl, rfl, rfl, rfl, rfl⟩

theorem SameSched.trans {k₁ k₂ k₃ : Kernel} (h : SameSched k₁ k₂) (h' : SameSched k₂ k₃) :
    SameSched k₁ k₃ where
  prioTbl := h'.prioTbl.trans h.prioTbl
  list := h'.list.trans h.list
  cur := h'.cur.trans h.cur
  highRdy := h'.highRdy.trans h.highRdy
  prioCur := h'.prioCur.trans h.prioCur
  prioHighRdy := h'.prioHighRdy.trans h.prioHighRdy
  int := h'.int.trans h.int
  lock := h'.lock.trans h.lock
  running := h'.running.trans h.running
  pendSV := h'.pendSV.trans h.pendSV

/-- The tables stay in order, the scheduler's variables as they are, no task moves in its
code, and who may run still may. -/
structure Keeps (k k' : Kernel) : Prop where
  sound : Sound k'
  same : SameSched k k'
  pc : k'.pc = k.pc
  prio : ∀ i, (k'.OSTCBTbl i).OSTCBPrio = (k.OSTCBTbl i).OSTCBPrio
  runnable : ∀ i, (k.OSTCBTbl i).Runnable → (k'.OSTCBTbl i).Runnable

/-- And who is neither registered nor, if `delays`, delayed is left alone. -/
structure Wakes (delays : Prop) (k k' : Kernel) : Prop extends Keeps k k' where
  spares : ∀ i, (∀ e, ¬ (k.OSTCBTbl i).Registered e) → (delays → (k.OSTCBTbl i).OSTCBDly = 0) →
    k'.OSTCBTbl i = k.OSTCBTbl i

variable {delays : Prop}

theorem Wakes.refl {k : Kernel} (s : Sound k) : Wakes delays k k :=
  ⟨⟨s, .refl k, rfl, fun _ => rfl, fun _ runs => runs⟩, fun _ _ _ => rfl⟩

theorem Wakes.trans {k₁ k₂ k₃ : Kernel} (h : Wakes delays k₁ k₂) (h' : Wakes delays k₂ k₃) :
    Wakes delays k₁ k₃ where
  sound := h'.sound
  same := h.same.trans h'.same
  pc := h'.pc.trans h.pc
  prio i := (h'.prio i).trans (h.prio i)
  runnable i runs := h'.runnable i (h.runnable i runs)
  spares i free rest := by
    have first := h.spares i free rest
    rw [h'.spares i (by rwa [first]) (by rwa [first]), first]

/-- What leaves delayed tasks alone leaves those alone that are not. -/
theorem Wakes.of_false {k k' : Kernel} (h : Wakes False k k') : Wakes delays k k' :=
  { h with spares := fun i free _ => h.spares i free False.elim }

/-! ## One task -/

section Task

variable {k k' : Kernel} {i : TcbId} {p : ℕ} {t : Tcb}

/-- What a task that becomes ready, or stays as it was, does to the tables. -/
theorem Sound.represents_ready (s : Sound k) (here : k.OSTCBPrioTbl p = .tcb i)
    (runs : (k.OSTCBTbl i).Runnable → t.Runnable) :
    Represents (if t.Runnable then k.OSRdy.set p else k.OSRdy)
      (adjust p t.Runnable k.readySet) := by
  split_ifs with ready
  · rw [adjust_of ready]
    exact PrioTable.represents_set s.ready (s.slot p i here).2.2
  · have absent : p ∈ k.readySet ↔ t.Runnable := by
      refine iff_of_false ?_ ready
      rintro ⟨j, there, runsNow⟩
      rw [here, Slot.tcb.injEq] at there
      subst there
      exact ready (runs runsNow)
    rw [adjust_eq_self absent]
    exact s.ready

/-- A wait list that the change does not concern. -/
theorem Sound.represents_wait (s : Sound k) (here : k.OSTCBPrioTbl p = .tcb i) {e : EventId}
    (same : (k.OSTCBTbl i).Registered e ↔ t.Registered e) :
    Represents (k.OSEventTbl e).wait (adjust p (t.Registered e) (k.waitSet e)) := by
  have agrees : p ∈ k.waitSet e ↔ t.Registered e := by
    rw [← same]
    constructor
    · rintro ⟨j, there, registered⟩
      rw [here, Slot.tcb.injEq] at there
      rwa [there]
    · exact fun registered => ⟨i, here, registered⟩
  rw [adjust_eq_self agrees]
  exact s.wait e

end Task

section Change

variable {k k' : Kernel} {i : TcbId} {p : ℕ} {t : Tcb} (s : Sound k)
  (only : OnlyTask k k' i t) (same : SameSched k k') (pc : k'.pc = k.pc)
  (here : k.OSTCBPrioTbl p = .tcb i) (prio : t.OSTCBPrio = p)
  (runs : (k.OSTCBTbl i).Runnable → t.Runnable)
  (ready : Represents k'.OSRdy (adjust p t.Runnable k.readySet))
  (wait : ∀ e, Represents (k'.OSEventTbl e).wait (adjust p (t.Registered e) (k.waitSet e)))
  (phase : Phase (k.pc i).waitsFor t)
  (registered : ∀ e, t.Registered e → (k.OSTCBTbl i).Registered e)

include s only same pc here prio runs ready wait phase registered

/-- The rule for a change of one task, for a task that stays where it is and is not kept
from running. -/
theorem Sound.keeps_of_change : Keeps k k' := by
  obtain ⟨mem, prio', -⟩ := s.slot p i here
  refine ⟨s.change only here prio ready wait (by rw [pc]; exact phase) ?_ ?_, same, pc, ?_, ?_⟩
  · intro e now
    rw [pc]
    exact s.typed i mem e (registered e now)
  · intro e now available
    have empty := s.noLostWakeup e available
    exact absurd (empty ▸ ⟨i, here, registered e now⟩ : p ∈ (∅ : Set ℕ)) (Set.notMem_empty p)
  · intro j
    rw [only.tcb, Function.update_apply]
    split_ifs with same
    · rw [prio, same, prio']
    · rfl
  · intro j runsNow
    rw [only.tcb, Function.update_apply]
    split_ifs with same
    · exact runs (same ▸ runsNow)
    · exact runsNow

/-- The same for a task that is registered or delayed. -/
theorem Sound.wakes_of_change (busy : (∃ e, (k.OSTCBTbl i).Registered e) ∨
    (delays ∧ (k.OSTCBTbl i).OSTCBDly ≠ 0)) : Wakes delays k k' := by
  refine ⟨s.keeps_of_change only same pc here prio runs ready wait phase registered, ?_⟩
  intro j free rest
  rw [only.tcb]
  refine Function.update_of_ne ?_ ..
  rintro rfl
  rcases busy with ⟨e, registered⟩ | ⟨counted, delayed⟩
  · exact free e registered
  · exact delayed (rest counted)

end Change

/-! ## `OS_EventTaskRdy` -/

/-- The control block that `OS_EventTaskRdy` leaves. -/
def Tcb.woken (pmsg : ℕ) (msk : BitVec 8) (pendStat : PendStat) (t : Tcb) : Tcb :=
  { t with
    OSTCBDly := 0
    OSTCBMsg := pmsg
    OSTCBStat := t.OSTCBStat &&& ~~~msk
    OSTCBStatPend := pendStat }

section EventTaskRdy

variable {k : Kernel} {e : EventId} {kind : EventKind} {pendStat : PendStat}

/-- The task of the highest priority among those registered with the event. -/
def Kernel.firstWaiter (k : Kernel) (e : EventId) : TcbId :=
  (k.OSTCBPrioTbl (k.OSEventTbl e).wait.highest).deref

variable (s : Sound k) (waiting : (k.waitSet e).Nonempty)

include s waiting in
/-- The group and the table of the wait list lead to the first waiter. -/
theorem Sound.firstWaiter :
    IsLeast (k.waitSet e) (k.OSEventTbl e).wait.highest ∧
      k.OSTCBPrioTbl (k.OSEventTbl e).wait.highest = .tcb (k.firstWaiter e) ∧
      (k.OSTCBTbl (k.firstWaiter e)).Registered e := by
  have least := PrioTable.isLeast_highest (s.wait e) waiting
  obtain ⟨i, here, registered⟩ := least.1
  have first : k.firstWaiter e = i := by rw [Kernel.firstWaiter, here, Slot.deref]
  rw [first]
  exact ⟨least, here, registered⟩

/-- What `OS_EventTaskRdy` writes. -/
theorem osEventTaskRdy_eq (k : Kernel) (e : EventId) (pmsg : ℕ) (msk : BitVec 8)
    (pendStat : PendStat) {i : TcbId} {t : Tcb} (first : k.firstWaiter e = i)
    (block : (k.OSTCBTbl i).woken pmsg msk pendStat = t) :
    k.osEventTaskRdy e pmsg msk pendStat =
      { k with
        OSTCBTbl := Function.update k.OSTCBTbl i t
        OSRdy := if t.OSTCBStat &&& osStatSuspend = osStatRdy then k.OSRdy.set t.OSTCBPrio
          else k.OSRdy
        OSEventTbl := Function.update k.OSEventTbl e { k.OSEventTbl e with
          wait := (k.OSEventTbl e).wait.clear t.OSTCBPrio } } := by
  subst first block
  simp only [Kernel.osEventTaskRdy, Kernel.osEventTaskRemove, Kernel.setTcb, Kernel.setEvent,
    Kernel.rdySet]
  split_ifs <;> simp_all [Kernel.firstWaiter, Tcb.woken]

/-- A task that is woken may run unless it is suspended, and is registered nowhere. -/
theorem Tcb.woken_phase (pmsg : ℕ) {t : Tcb} (phase : Phase (some (kind, e)) t)
    (ends : pendStat ≠ .pendTo) :
    Phase (some (kind, e)) (t.woken pmsg kind.osStat pendStat) ∧
      ((t.woken pmsg kind.osStat pendStat).OSTCBStat &&& osStatSuspend = osStatRdy ↔
        (t.woken pmsg kind.osStat pendStat).Runnable) ∧
      (∀ e', ¬ (t.woken pmsg kind.osStat pendStat).Registered e') ∧
      (t.Runnable → (t.woken pmsg kind.osStat pendStat).Runnable) := by
  obtain ⟨ptr, suspended, stat⟩ := phase
  have cleared : t.OSTCBStat &&& ~~~kind.osStat = statOf none suspended := by
    rcases stat with ⟨stat, -⟩ | ⟨stat, -⟩
    · rw [stat, statOf_clear_kind]
    · rw [stat, statOf_none_clear_kind]
  refine ⟨⟨ptr, suspended, Or.inr ⟨cleared, rfl⟩⟩, ?_, ?_, ?_⟩
  · rw [Tcb.Runnable, and_iff_left (show (t.woken pmsg kind.osStat pendStat).OSTCBDly = 0 from rfl)]
    change t.OSTCBStat &&& ~~~kind.osStat &&& osStatSuspend = osStatRdy ↔
      t.OSTCBStat &&& ~~~kind.osStat = osStatRdy
    rw [cleared, statOf_and_suspend, statOf_eq_rdy, and_iff_right rfl]
  · rintro e' ⟨-, waits | timedOut⟩
    · change t.OSTCBStat &&& ~~~kind.osStat &&& osStatPendAny ≠ osStatRdy at waits
      rw [cleared, statOf_and_pendAny] at waits
      exact waits rfl
    · exact ends timedOut
  · rintro ⟨ready, -⟩
    refine ⟨?_, rfl⟩
    change t.OSTCBStat &&& ~~~kind.osStat = osStatRdy
    rw [ready]
    exact BitVec.zero_and

include s waiting in
/-- **Waking.**  `OS_EventTaskRdy` keeps the tables in order and takes just the first
waiter off the list. -/
theorem Sound.wakes_osEventTaskRdy (pmsg : ℕ) (type : (k.OSEventTbl e).OSEventType = some kind)
    (ends : pendStat ≠ .pendTo) :
    Wakes False k (k.osEventTaskRdy e pmsg kind.osStat pendStat) ∧
      (k.osEventTaskRdy e pmsg kind.osStat pendStat).waitSet e =
        k.waitSet e \ {(k.OSEventTbl e).wait.highest} := by
  obtain ⟨least, here, registered⟩ := s.firstWaiter waiting
  generalize first : k.firstWaiter e = i at here registered
  generalize (k.OSEventTbl e).wait.highest = p at here ⊢
  obtain ⟨mem, prio, inside⟩ := s.slot p i here
  obtain ⟨kind', place, type'⟩ := s.typed i mem e registered
  obtain rfl : kind' = kind := by rwa [type, Option.some.injEq, eq_comm] at type'
  have phase := s.phase i mem
  rw [place] at phase
  obtain ⟨phase', free, notRegistered, runs⟩ := Tcb.woken_phase pmsg phase ends
  have tPrio : ((k.OSTCBTbl i).woken pmsg kind'.osStat pendStat).OSTCBPrio = p := prio
  generalize block : (k.OSTCBTbl i).woken pmsg kind'.osStat pendStat = t at *
  rw [osEventTaskRdy_eq k e pmsg kind'.osStat pendStat first block, if_congr free rfl rfl, tPrio]
  generalize wakes : ({ k with
    OSTCBTbl := _, OSRdy := _, OSEventTbl := _ } : Kernel) = k'
  have only : OnlyTask k k' i t := by
    subst wakes
    refine ⟨rfl, rfl, rfl, rfl, rfl, rfl, fun _ _ => rfl, fun e' => ?_⟩
    by_cases same : e' = e
    · subst same
      simp
    · simp [Function.update_of_ne same]
  have waitSet : ∀ e', k'.waitSet e' = adjust p (t.Registered e') (k.waitSet e') :=
    fun e' => s.setOf_onlyTask only here _
  refine ⟨s.wakes_of_change only ?_ ?_ here tPrio runs ?_ ?_ ?_ ?_ (Or.inl ⟨e, registered⟩), ?_⟩
  · subst wakes
    exact ⟨rfl, rfl, rfl, rfl, rfl, rfl, rfl, rfl, rfl, rfl⟩
  · subst wakes
    rfl
  · subst wakes
    exact s.represents_ready here runs
  · intro e'
    subst wakes
    by_cases same : e' = e
    · subst same
      simp only [Function.update_self]
      rw [adjust_of_not (notRegistered e')]
      exact PrioTable.represents_clear (s.wait e') inside
    · simp only [Function.update_of_ne same]
      -- a task points to one event, so it was on no other list
      refine s.represents_wait here ((iff_false_right (notRegistered e')).mpr ?_)
      rintro ⟨ptr, -⟩
      rw [registered.1, Option.some.injEq] at ptr
      exact same ptr.symm
  · rwa [place]
  · exact fun e' registered' => absurd registered' (notRegistered e')
  · rw [waitSet, adjust_of_not (notRegistered e)]

/-- The event blocks differ in their wait lists alone. -/
structure SameEvents (k k' : Kernel) : Prop where
  event : ∀ e, k'.OSEventTbl e = { k.OSEventTbl e with wait := (k'.OSEventTbl e).wait }
  free : k'.OSEventFreeList = k.OSEventFreeList

theorem SameEvents.refl (k : Kernel) : SameEvents k k := ⟨fun _ => rfl, rfl⟩

theorem SameEvents.trans {k₁ k₂ k₃ : Kernel} (h : SameEvents k₁ k₂) (h' : SameEvents k₂ k₃) :
    SameEvents k₁ k₃ :=
  ⟨fun e => by rw [h'.event, h.event], h'.free.trans h.free⟩

theorem SameEvents.type {k k' : Kernel} (h : SameEvents k k') (e : EventId) :
    (k'.OSEventTbl e).OSEventType = (k.OSEventTbl e).OSEventType := by
  rw [h.event]

theorem sameEvents_osEventTaskRdy (k : Kernel) (e : EventId) (pmsg : ℕ) (msk : BitVec 8)
    (pendStat : PendStat) : SameEvents k (k.osEventTaskRdy e pmsg msk pendStat) := by
  rw [osEventTaskRdy_eq k e pmsg msk pendStat rfl rfl]
  refine ⟨fun e' => ?_, rfl⟩
  by_cases same : e' = e
  · subst same
    simp
  · simp [Function.update_of_ne same]

theorem sameEvents_osEventTaskRdyAll (e : EventId) (pmsg : ℕ) (msk : BitVec 8)
    (pendStat : PendStat) (n : ℕ) (k : Kernel) :
    SameEvents k (k.osEventTaskRdyAll e pmsg msk pendStat n) := by
  induction n generalizing k with
  | zero => exact .refl k
  | succ n ih =>
      rw [Kernel.osEventTaskRdyAll]
      split_ifs with group
      · exact (sameEvents_osEventTaskRdy k e pmsg msk pendStat).trans (ih _)
      · exact .refl k

theorem Sound.grp_eq_zero_iff (s : Sound k) : (k.OSEventTbl e).wait.grp = 0 ↔ k.waitSet e = ∅ :=
  (s.wait e).grp_eq_zero_iff (by decide)

theorem Sound.nonempty_of_grp (s : Sound k) (group : (k.OSEventTbl e).wait.grp ≠ 0) :
    (k.waitSet e).Nonempty :=
  Set.nonempty_iff_ne_empty.mpr fun empty => group (s.grp_eq_zero_iff.mpr empty)

theorem Sound.lt_of_mem_waitSet (s : Sound k) {p : ℕ} (mem : p ∈ k.waitSet e) : p < 64 := by
  obtain ⟨i, here, -⟩ := mem
  exact (s.slot p i here).2.2

/-- **The loop over a wait list** wakes everybody: each round takes the least priority off
the list, and there are as many rounds as priorities. -/
theorem Sound.wakes_osEventTaskRdyAll {n : ℕ} (s : Sound k) (pmsg : ℕ)
    (type : (k.OSEventTbl e).OSEventType = some kind) (ends : pendStat ≠ .pendTo)
    (rounds : ∀ p ∈ k.waitSet e, 64 ≤ p + n) :
    Wakes False k (k.osEventTaskRdyAll e pmsg kind.osStat pendStat n) ∧
      (k.osEventTaskRdyAll e pmsg kind.osStat pendStat n).waitSet e = ∅ := by
  induction n generalizing k with
  | zero =>
      refine ⟨.refl s, Set.eq_empty_of_forall_notMem fun p mem => ?_⟩
      have := rounds p mem
      have := s.lt_of_mem_waitSet mem
      omega
  | succ n ih =>
      rw [Kernel.osEventTaskRdyAll]
      split_ifs with group
      · have waiting := s.nonempty_of_grp group
        obtain ⟨wakes, less⟩ := s.wakes_osEventTaskRdy waiting pmsg type ends
        obtain ⟨least, -, -⟩ := s.firstWaiter waiting
        have type' := (sameEvents_osEventTaskRdy k e pmsg kind.osStat pendStat).type e
        -- each round takes the least priority, so the others are above it
        obtain ⟨later, none⟩ := ih wakes.sound (type'.trans type) fun p mem => by
          rw [less] at mem
          have first : (k.OSEventTbl e).wait.highest ≤ p := least.2 mem.1
          have other : p ≠ (k.OSEventTbl e).wait.highest := mem.2
          have := rounds _ least.1
          omega
        exact ⟨wakes.trans later, none⟩
      · exact ⟨.refl s, s.grp_eq_zero_iff.mp (not_not.mp group)⟩

end EventTaskRdy

/-! ## Delays -/

section Delay

variable {k : Kernel} {i : TcbId}

/-- The control block of a task whose delay has run out. -/
def Tcb.expired (t : Tcb) : Tcb :=
  if t.OSTCBStat &&& osStatPendAny ≠ osStatRdy then
    { t with
      OSTCBDly := 0
      OSTCBStat := t.OSTCBStat &&& ~~~osStatPendAny
      OSTCBStatPend := .pendTo }
  else { t with OSTCBDly := 0, OSTCBStatPend := .pendOk }

theorem dlyExpired_eq (k : Kernel) (i : TcbId) {t : Tcb} (block : (k.OSTCBTbl i).expired = t) :
    k.dlyExpired i =
      { k with
        OSTCBTbl := Function.update k.OSTCBTbl i t
        OSRdy := if t.OSTCBStat &&& osStatSuspend = osStatRdy then k.OSRdy.set t.OSTCBPrio
          else k.OSRdy } := by
  have unfolded : k.dlyExpired i =
      if (k.OSTCBTbl i).expired.OSTCBStat &&& osStatSuspend = osStatRdy then
        (k.setTcb i (k.OSTCBTbl i).expired).rdySet (k.OSTCBTbl i).expired.OSTCBPrio
      else k.setTcb i (k.OSTCBTbl i).expired := rfl
  rw [unfolded, block]
  split_ifs <;> rfl

theorem Tcb.expired_phase {t : Tcb} {w : Option (EventKind × EventId)} (phase : Phase w t)
    (delayed : t.OSTCBDly ≠ 0) :
    Phase w t.expired ∧ t.expired.OSTCBPrio = t.OSTCBPrio ∧
      (t.expired.OSTCBStat &&& osStatSuspend = osStatRdy ↔ t.expired.Runnable) ∧
      ∀ e, t.Registered e ↔ t.expired.Registered e := by
  rcases w with _ | ⟨kind, e⟩
  · obtain ⟨⟨suspended, stat⟩, ptr⟩ := phase
    have quiet : ¬ t.OSTCBStat &&& osStatPendAny ≠ osStatRdy := by
      rw [stat, statOf_and_pendAny]
      simp
    have eq : t.expired = { t with OSTCBDly := 0, OSTCBStatPend := .pendOk } := if_neg quiet
    rw [eq]
    refine ⟨⟨⟨suspended, stat⟩, ptr⟩, rfl, ?_, fun e => ?_⟩
    · simp only [Tcb.Runnable, and_true, stat, statOf_and_suspend, statOf_eq_rdy, true_and]
    · simp [Tcb.Registered, ptr]
  · obtain ⟨ptr, suspended, ⟨stat, pending⟩ | ⟨-, noDelay⟩⟩ := phase
    · have waits : t.OSTCBStat &&& osStatPendAny ≠ osStatRdy := by
        rw [stat, statOf_and_pendAny]
        simp
      have eq : t.expired = { t with
          OSTCBDly := 0
          OSTCBStat := t.OSTCBStat &&& ~~~osStatPendAny
          OSTCBStatPend := .pendTo } := if_pos waits
      rw [eq]
      have cleared : t.OSTCBStat &&& ~~~osStatPendAny = statOf none suspended := by
        rw [stat, statOf_clear_pendAny]
      refine ⟨⟨ptr, suspended, Or.inr ⟨cleared, rfl⟩⟩, rfl, ?_, fun e' => ?_⟩
      · simp only [Tcb.Runnable, and_true, cleared, statOf_and_suspend, statOf_eq_rdy, true_and]
      · simp only [Tcb.Registered, waits, ne_eq, not_false_eq_true, true_or, and_true, or_true]
    · exact absurd noDelay delayed

/-- A task whose delay runs out is made ready unless it is suspended, and stays on the wait
list it is on. -/
theorem Sound.wakes_dlyExpired (s : Sound k) {p : ℕ} (here : k.OSTCBPrioTbl p = .tcb i)
    (delayed : (k.OSTCBTbl i).OSTCBDly ≠ 0) : Wakes True k (k.dlyExpired i) := by
  obtain ⟨mem, prio, inside⟩ := s.slot p i here
  obtain ⟨phase, prio', free, registered⟩ := Tcb.expired_phase (s.phase i mem) delayed
  have tPrio : (k.OSTCBTbl i).expired.OSTCBPrio = p := prio'.trans prio
  generalize block : (k.OSTCBTbl i).expired = t at *
  have runs : (k.OSTCBTbl i).Runnable → t.Runnable := fun runs => absurd runs.2 delayed
  rw [dlyExpired_eq k i block, if_congr free rfl rfl, tPrio]
  refine s.wakes_of_change ⟨rfl, rfl, rfl, rfl, rfl, rfl, fun _ _ => rfl, fun _ => rfl⟩
    ⟨rfl, rfl, rfl, rfl, rfl, rfl, rfl, rfl, rfl, rfl⟩ rfl here tPrio runs ?_ ?_ phase ?_
    (Or.inr ⟨trivial, delayed⟩)
  · exact s.represents_ready here runs
  · exact fun e => s.represents_wait here (registered e)
  · exact fun e => (registered e).mpr

/-- A round of the loop of `OSTimeTick`. -/
theorem Sound.wakes_tickTcb (s : Sound k) (mem : i ∈ k.OSTCBList) :
    Wakes True k (k.tickTcb i) := by
  have here := s.listed i mem
  unfold Kernel.tickTcb
  simp only
  split_ifs with delayed last
  · exact s.wakes_dlyExpired here delayed
  · generalize block : ({ k.OSTCBTbl i with OSTCBDly := (k.OSTCBTbl i).OSTCBDly - 1 } : Tcb) = t
    have registered : ∀ e, (k.OSTCBTbl i).Registered e ↔ t.Registered e := fun e => by
      rw [← block]
      exact Iff.rfl
    have runs : (k.OSTCBTbl i).Runnable → t.Runnable := fun runs => absurd runs.2 delayed
    have waits : ¬ t.Runnable := by
      rw [← block]
      exact fun runs => last runs.2
    refine s.wakes_of_change ⟨rfl, rfl, rfl, rfl, rfl, rfl, fun _ _ => rfl, fun _ => rfl⟩
      ⟨rfl, rfl, rfl, rfl, rfl, rfl, rfl, rfl, rfl, rfl⟩ rfl here (by rw [← block]) runs ?_ ?_ ?_ ?_
      (Or.inr ⟨trivial, delayed⟩)
    · have ready := s.represents_ready here runs
      rwa [if_neg waits] at ready
    · exact fun e => s.represents_wait here (registered e)
    · have phase := s.phase i mem
      rw [← block]
      rcases place : (k.pc i).waitsFor with _ | ⟨kind, e⟩
      · rw [place] at phase
        exact phase
      · rw [place] at phase
        obtain ⟨ptr, suspended, waiting | ⟨-, noDelay⟩⟩ := phase
        · exact ⟨ptr, suspended, Or.inl waiting⟩
        · exact absurd noDelay delayed
    · exact fun e => (registered e).mpr
  · exact .refl s

/-- The loop of `OSTimeTick`. -/
theorem Sound.wakes_foldl_tickTcb {l : List TcbId} (s : Sound k)
    (tasks : ∀ i ∈ l, i ∈ k.OSTCBList) : Wakes True k (l.foldl Kernel.tickTcb k) := by
  induction l generalizing k with
  | nil => exact .refl s
  | cons i l ih =>
      have first := s.wakes_tickTcb (tasks i List.mem_cons_self)
      refine first.trans (ih first.sound fun j mem => ?_)
      rw [first.same.list]
      exact tasks j (List.mem_cons_of_mem i mem)

end Delay

end Ucos

end CannonCar
