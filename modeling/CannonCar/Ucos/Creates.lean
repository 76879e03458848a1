import CannonCar.Ucos.Stops

/-!
# Creating and deleting tasks

`OSTaskCreate` and `OSTaskDel` move a control block between the free list and the list of
tasks and change the slot of its priority.

## What is load-bearing

**The sections in a row.**  `sections_create` and `sections_delete` say what the critical
sections of the two services come to when nothing comes in between: `Kernel.created` and
`Kernel.deleted`, one change of the tables each.  The rest of the module is about these.

**A slot is a reservation.**  The slot that `OSTaskCreate` takes before there is a control
block goes back when there is none, so that the service changes nothing then
(`osTaskCreate_cases`).

**A task that deletes itself** has no control block from then on and runs on until `OS_Sched`; the
invariant of the scheduler has a case for it.  The idle task cannot be deleted, so there is
always somebody to run.

**The lock around the window** of `OSTaskDel` is not taken at 255, but given back: the one
state in which the service leaves `OSLockNesting` changed.
-/

namespace CannonCar

namespace Ucos

open TwoLevel

variable {k k' : Kernel} {i : TcbId} {p : ℕ} {t : Tcb} {free : List TcbId}

/-! ### `OSTaskCreate` -/

/-- The kernel with one more task. -/
def Kernel.created (prio : ℕ) (ptcb : TcbId) (free : List TcbId) (k : Kernel) : Kernel :=
  { k with
    OSRdy := k.OSRdy.set prio
    OSTCBFreeList := free
    OSTCBPrioTbl := Function.update k.OSTCBPrioTbl prio (.tcb ptcb)
    OSTCBTbl := Function.update k.OSTCBTbl ptcb ⟨prio, osStatRdy, .pendOk, 0, none, 0⟩
    OSTCBList := ptcb :: k.OSTCBList
    OSTaskCtr := k.OSTaskCtr + 1
    pc := Function.update k.pc ptcb .user }

/-- The sections of `OSTaskCreate` and `OS_TCBInit`, one after the other. -/
theorem sections_create (k : Kernel) (prio : ℕ) (ptcb : TcbId) (free : List TcbId) :
    ({ k with OSTCBPrioTbl := Function.update k.OSTCBPrioTbl prio .reserved }.tcbTake prio ptcb free
      |>.tcbEnter prio ptcb |>.tcbLink prio ptcb) = k.created prio ptcb free := by
  simp only [Kernel.tcbLink, Kernel.tcbEnter, Kernel.tcbTake, Kernel.setTcb, Kernel.setPc,
    Kernel.rdySet, Kernel.created, Function.update_idem]

/-- `OSTaskCreate` for a priority that is free, with a control block left. -/
theorem osTaskCreate_eq (range : p ≤ osTaskIdlePrio) (top : k.OSIntNesting = 0)
    (empty : k.OSTCBPrioTbl p = .null) (list : k.OSTCBFreeList = i :: free) :
    (k.osTaskCreate p).1 = if k.OSRunning = true then (k.created p i free).toSched .sched
      else k.created p i free := by
  unfold Kernel.osTaskCreate
  rw [if_neg (not_lt.mpr range), if_neg (by omega), if_pos empty]
  simp only [Kernel.osTCBInit, list, ← sections_create k p i free]
  rfl

/-- `OSTaskCreate` creates the task or leaves everything as it is: the slot it reserves is
given back when there is no control block. -/
theorem osTaskCreate_cases (k : Kernel) (prio : ℕ) :
    (k.osTaskCreate prio).1 = k ∨
      ∃ i free, prio ≤ osTaskIdlePrio ∧ k.OSIntNesting = 0 ∧ k.OSTCBPrioTbl prio = .null ∧
        k.OSTCBFreeList = i :: free := by
  by_cases range : osTaskIdlePrio < prio
  · exact Or.inl (by rw [Kernel.osTaskCreate, if_pos range])
  by_cases nested : 0 < k.OSIntNesting
  · exact Or.inl (by rw [Kernel.osTaskCreate, if_neg range, if_pos nested])
  by_cases empty : k.OSTCBPrioTbl prio = .null
  · rcases list : k.OSTCBFreeList with _ | ⟨i, free⟩
    · left
      have back : Function.update (Function.update k.OSTCBPrioTbl prio .reserved) prio .null =
          k.OSTCBPrioTbl := by
        rw [Function.update_idem, ← empty, Function.update_eq_self]
      rw [Kernel.osTaskCreate, if_neg range, if_neg nested, if_pos empty]
      simp only [Kernel.osTCBInit, list, back]
      rw [← list]
    · exact Or.inr ⟨i, free, not_lt.mp range, Nat.eq_zero_of_not_pos nested, empty, rfl⟩
  · exact Or.inl (by rw [Kernel.osTaskCreate, if_neg range, if_neg nested, if_neg empty])

theorem Sound.free_notMem (s : Sound k) (list : k.OSTCBFreeList = i :: free) :
    i ∉ k.OSTCBList := by
  have distinct := s.pool
  rw [list, List.nodup_append'] at distinct
  exact fun mem => distinct.2.2 mem List.mem_cons_self

/-- What a property of the control blocks says of the slots when a task is there that does
not have it. -/
theorem Sound.setOf_created (s : Sound k) (list : k.OSTCBFreeList = i :: free)
    (empty : k.OSTCBPrioTbl p = .null) (P : Tcb → Prop) :
    {q | ∃ j, (k.created p i free).OSTCBPrioTbl q = .tcb j ∧
        P ((k.created p i free).OSTCBTbl j)} =
      adjust p (P ⟨p, osStatRdy, .pendOk, 0, none, 0⟩)
        {q | ∃ j, k.OSTCBPrioTbl q = .tcb j ∧ P (k.OSTCBTbl j)} := by
  have fresh := s.free_notMem list
  have slot : ∀ q, (k.created p i free).OSTCBPrioTbl q =
      if q = p then .tcb i else k.OSTCBPrioTbl q := fun q => Function.update_apply ..
  have block : ∀ j, (k.created p i free).OSTCBTbl j =
      if j = i then ⟨p, osStatRdy, .pendOk, 0, none, 0⟩ else k.OSTCBTbl j :=
    fun j => Function.update_apply ..
  ext q
  simp only [adjust, Set.mem_ofPred_eq, slot, block]
  by_cases same : q = p
  · subst same
    simp
  · have others : ∀ j, k.OSTCBPrioTbl q = .tcb j → j ≠ i := by
      rintro j there rfl
      exact fresh (s.slot q j there).1
    simp only [same, if_false, false_and, not_false_eq_true, true_and, false_or, ne_eq]
    constructor
    · rintro ⟨j, there, holds⟩
      exact ⟨j, there, by rwa [if_neg (others j there)] at holds⟩
    · rintro ⟨j, there, holds⟩
      exact ⟨j, there, by rwa [if_neg (others j there)]⟩

/-- **A task more** leaves the tables in order. -/
theorem Sound.of_create (s : Sound k) (list : k.OSTCBFreeList = i :: free)
    (range : p ≤ osTaskIdlePrio) (empty : k.OSTCBPrioTbl p = .null) :
    Sound (k.created p i free) := by
  have fresh := s.free_notMem list
  have inside : p < 64 := Nat.lt_succ_of_le range
  have slot : ∀ q, (k.created p i free).OSTCBPrioTbl q =
      if q = p then .tcb i else k.OSTCBPrioTbl q := fun q => Function.update_apply ..
  have block : ∀ j, (k.created p i free).OSTCBTbl j =
      if j = i then ⟨p, osStatRdy, .pendOk, 0, none, 0⟩ else k.OSTCBTbl j :=
    fun j => Function.update_apply ..
  have place : ∀ j, (k.created p i free).pc j = if j = i then .user else k.pc j :=
    fun j => Function.update_apply ..
  have ready : (k.created p i free).readySet = adjust p True k.readySet := by
    refine (s.setOf_created list empty Tcb.Runnable).trans ?_
    rw [eq_true (show Tcb.Runnable ⟨p, osStatRdy, .pendOk, 0, none, 0⟩ from ⟨rfl, rfl⟩)]
    rfl
  have waits : ∀ e, (k.created p i free).waitSet e = k.waitSet e := by
    intro e
    refine (s.setOf_created list empty (Tcb.Registered e)).trans (adjust_eq_self ?_)
    refine iff_of_false ?_ ?_
    · rintro ⟨j, there, -⟩
      rw [empty] at there
      exact absurd there (by simp)
    · exact Tcb.not_registered_of_phase ⟨⟨false, rfl⟩, rfl⟩ e
  have old : ∀ j, j ∈ k.OSTCBList → j ≠ i := fun j mem same => fresh (same ▸ mem)
  constructor
  case slot =>
    intro q j there
    rw [slot] at there
    rw [block]
    split_ifs at there with same
    · rw [Slot.tcb.injEq] at there
      subst there same
      exact ⟨List.mem_cons_self, by rw [if_pos rfl], inside⟩
    · obtain ⟨mem, prio, lt⟩ := s.slot q j there
      exact ⟨List.mem_cons_of_mem i mem, by rw [if_neg (old j mem), prio], lt⟩
  case listed =>
    intro j mem
    rw [block, slot]
    rcases List.mem_cons.mp mem with rfl | mem
    · rw [if_pos rfl, if_pos rfl]
    · have there := s.listed j mem
      have other : (k.OSTCBTbl j).OSTCBPrio ≠ p := by
        intro same
        rw [same, empty] at there
        exact absurd there (by simp)
      rw [if_neg (old j mem), if_neg other, there]
  case blocks =>
    -- the first free block goes to the front of the task list
    have all := s.blocks
    rw [list] at all
    exact List.perm_middle.symm.trans all
  case ctr => exact congrArg (· + 1) s.ctr
  case ready =>
    rw [ready, adjust_of trivial]
    exact PrioTable.represents_set s.ready inside
  case wait => exact fun e => by rw [waits]; exact s.wait e
  case phase =>
    intro j mem
    rw [block, place]
    rcases List.mem_cons.mp mem with rfl | mem
    · rw [if_pos rfl, if_pos rfl]
      exact ⟨⟨false, rfl⟩, rfl⟩
    · rw [if_neg (old j mem), if_neg (old j mem)]
      exact s.phase j mem
  case typed =>
    intro j mem e
    rw [block, place]
    rcases List.mem_cons.mp mem with rfl | mem
    · rw [if_pos rfl]
      exact fun now => absurd now (Tcb.not_registered_of_phase ⟨⟨false, rfl⟩, rfl⟩ e)
    · rw [if_neg (old j mem), if_neg (old j mem)]
      exact s.typed j mem e
  case noLostWakeup => exact fun e offers => (waits e).trans (s.noLostWakeup e offers)
  case unused => exact s.unused
  case eventPool => exact s.eventPool
  case queue => exact s.queue

/-- A call after which the task is on its way to `OS_Sched`, and that leaves the scheduler's
variables and the running task's place in the tables alone. -/
theorem Live.consistent_of_leaving (l : Live k) (call : k.InCall) (top : k.OSIntNesting = 0)
    (s : Sound k')
    (list : k'.OSTCBCur ∈ k'.OSTCBList ∨ (k'.OSLockNesting = 0 ∧
      k'.OSTCBPrioTbl k'.OSPrioCur = .null))
    (place : k'.pc k'.OSTCBCur = .sched) (idle : ∃ i l, k'.OSTCBPrioTbl osTaskIdlePrio = .tcb i ∧
      (k'.OSTCBTbl i).Runnable ∧ k'.pc i = .user ∧ k'.OSTCBList = l ++ [i])
    (prioCur : k'.OSPrioCur = k'.tcbCur.OSTCBPrio) (running : k'.OSRunning = k.OSRunning)
    (pendSV : k'.pendSV = k.pendSV) : Consistent k' := by
  have none : k'.pendSV = false := by
    rw [pendSV]
    exact (call.task (by omega)).1.2
  refine ⟨s, ⟨running.trans l.running, idle, prioCur, ?_, ?_⟩, ?_, ?_⟩
  · exact list.imp_right fun ⟨unlocked, null⟩ => ⟨unlocked, null, Or.inl place⟩
  · exact fun _ => ⟨none, by rw [place]; rfl⟩
  · intro due
    rw [none] at due
    exact absurd due (by simp)
  · intro _ _ _ rest
    rw [place] at rest
    exact absurd rest (by simp [Pc.beforeSched])

/-- **`OSTaskCreate`**, called by a task. -/
theorem Consistent.osTaskCreate (c : Consistent k) (call : k.InCall) (prio : ℕ) :
    Consistent (k.osTaskCreate prio).1 ∧ Settles k (k.osTaskCreate prio).1 := by
  rcases osTaskCreate_cases k prio with same | ⟨i, free, range, top, empty, list⟩
  · rw [same]
    exact ⟨c, .refl k⟩
  obtain ⟨inTask, user, notIdle⟩ := call.task (by omega)
  have mem := c.live.mem_of_inTask inTask user
  have fresh := c.sound.free_notMem list
  have apart : k.OSTCBCur ≠ i := fun same => fresh (same ▸ mem)
  have s := c.sound.of_create list range empty
  have running : (k.created prio i free).OSRunning = true := c.live.running
  rw [osTaskCreate_eq range top empty list, if_pos c.live.running,
    toSched_of_task (show (k.created prio i free).OSIntNesting = 0 from top)]
  have place : ((k.created prio i free).setPc k.OSTCBCur .sched).pc k.OSTCBCur = .sched :=
    Function.update_self ..
  have before : (k.created prio i free).pc k.OSTCBCur = .user :=
    (Function.update_of_ne apart ..).trans user
  refine ⟨c.live.consistent_of_leaving call top (s.setPc ?_) (Or.inl (List.mem_cons_of_mem i mem))
    place ?_ ?_
    rfl rfl, ⟨rfl, rfl, rfl, rfl, fun _ => rfl⟩, fun _ => Or.inl (congrArg Pc.beforeSched place)⟩
  · exact (congrArg Pc.waitsFor before).symm
  · obtain ⟨j, front, there, runs, rest, tasks⟩ := c.live.idle
    have old : j ≠ i := by
      rintro rfl
      exact fresh (c.sound.slot _ _ there).1
    have other := c.idle_ne_cur there notIdle
    have slot : osTaskIdlePrio ≠ prio := by
      rintro rfl
      rw [there] at empty
      exact absurd empty (by simp)
    refine ⟨j, i :: front, (Function.update_of_ne slot ..).trans there,
      runnable_update_of_ne old runs, ?_, congrArg (i :: ·) tasks⟩
    exact (Function.update_of_ne other ..).trans ((Function.update_of_ne old ..).trans rest)
  · have block : (k.created prio i free).OSTCBTbl k.OSTCBCur = k.tcbCur :=
      Function.update_of_ne apart ..
    exact c.live.prioCur.trans (congrArg Tcb.OSTCBPrio block).symm

/-! ### `OSTaskDel` -/

/-- The control block of a task that has been deleted. -/
def Tcb.deleted (t : Tcb) : Tcb :=
  { t with OSTCBDly := 0, OSTCBStat := osStatRdy, OSTCBStatPend := .pendOk }

/-- The kernel with one task less. -/
def Kernel.deleted (prio : ℕ) (ptcb : TcbId) (k : Kernel) : Kernel :=
  { k with
    OSRdy := k.OSRdy.clear prio
    OSEventTbl := match (k.OSTCBTbl ptcb).OSTCBEventPtr with
      | some e => Function.update k.OSEventTbl e { k.OSEventTbl e with
          wait := (k.OSEventTbl e).wait.clear prio }
      | none => k.OSEventTbl
    OSTCBTbl := Function.update k.OSTCBTbl ptcb (k.OSTCBTbl ptcb).deleted
    OSLockNesting := if k.OSLockNesting < 255 then k.OSLockNesting else k.OSLockNesting - 1
    OSTaskCtr := k.OSTaskCtr - 1
    OSTCBPrioTbl := Function.update k.OSTCBPrioTbl prio .null
    OSTCBList := k.OSTCBList.erase ptcb
    OSTCBFreeList := ptcb :: k.OSTCBFreeList }

/-- The two sections of `OSTaskDel`, one after the other: the lock that is held between them is
not taken at 255, but given back. -/
theorem Sound.sections_delete (s : Sound k) (here : k.OSTCBPrioTbl p = .tcb i) :
    (k.taskDelStop i).taskDelUnlink p i = k.deleted p i := by
  have prio := (s.slot p i here).2.1
  rcases ptr : (k.OSTCBTbl i).OSTCBEventPtr with _ | e <;>
  rcases lt_or_ge k.OSLockNesting 255 with room | full
  case none.inl | some.inl =>
    simp [Kernel.taskDelStop, Kernel.taskDelUnlink, Kernel.deleted, Tcb.deleted,
      Kernel.osEventTaskRemove, Kernel.setEvent, Kernel.setTcb, Kernel.rdyClear, ptr, prio, room]
  case none.inr | some.inr =>
    have held : 0 < k.OSLockNesting := by omega
    simp [Kernel.taskDelStop, Kernel.taskDelUnlink, Kernel.deleted, Tcb.deleted,
      Kernel.osEventTaskRemove, Kernel.setEvent, Kernel.setTcb, Kernel.rdyClear, ptr, prio,
      not_lt.mpr full, held]

/-- `OSTaskDel` deletes the task in the slot, or leaves everything as it is. -/
theorem Sound.osTaskDel_cases (s : Sound k) (prio : ℕ) :
    (k.osTaskDel prio).1 = k ∨
      ∃ i, k.OSIntNesting = 0 ∧ (prio = osPrioSelf ∨ prio < osTaskIdlePrio) ∧
        k.OSTCBPrioTbl (k.prioOf prio) = .tcb i ∧
        (k.osTaskDel prio).1 = if k.OSRunning = true then
          (k.deleted (k.prioOf prio) i).toSched .sched else k.deleted (k.prioOf prio) i := by
  unfold Kernel.osTaskDel
  by_cases nested : 0 < k.OSIntNesting
  · exact Or.inl (by rw [if_pos nested])
  by_cases idle : prio = osTaskIdlePrio
  · exact Or.inl (by rw [if_neg nested, if_pos idle])
  by_cases range : osTaskIdlePrio ≤ prio ∧ prio ≠ osPrioSelf
  · exact Or.inl (by rw [if_neg nested, if_neg idle, if_pos range])
  rw [if_neg nested, if_neg idle, if_neg range]
  generalize k.prioOf prio = p
  simp only
  split
  · exact Or.inl rfl
  · exact Or.inl rfl
  · next i here =>
    refine Or.inr ⟨i, Nat.eq_zero_of_not_pos nested, ?_, here, ?_⟩
    · by_cases self : prio = osPrioSelf
      · exact Or.inl self
      · exact Or.inr (not_le.mp fun le => range ⟨le, self⟩)
    · rw [s.sections_delete here]
      rfl

/-- What a property of the control blocks says of the slots when a task is gone. -/
theorem Sound.setOf_deleted (s : Sound k) (here : k.OSTCBPrioTbl p = .tcb i) (P : Tcb → Prop) :
    {q | ∃ j, (k.deleted p i).OSTCBPrioTbl q = .tcb j ∧ P ((k.deleted p i).OSTCBTbl j)} =
      {q | ∃ j, k.OSTCBPrioTbl q = .tcb j ∧ P (k.OSTCBTbl j)} \ {p} := by
  have slot : ∀ q, (k.deleted p i).OSTCBPrioTbl q = if q = p then .null else k.OSTCBPrioTbl q :=
    fun q => Function.update_apply ..
  ext q
  simp only [Set.mem_sdiff, Set.mem_singleton_iff, Set.mem_ofPred_eq, slot]
  by_cases same : q = p
  · simp [same]
  · have others : ∀ j, k.OSTCBPrioTbl q = .tcb j →
        (k.deleted p i).OSTCBTbl j = k.OSTCBTbl j :=
      fun j there => Function.update_of_ne (s.ne_of_slot here there same) ..
    simp only [same, if_false, not_false_eq_true, and_true]
    constructor
    · rintro ⟨j, there, holds⟩
      exact ⟨j, there, by rwa [others j there] at holds⟩
    · rintro ⟨j, there, holds⟩
      exact ⟨j, there, by rwa [others j there]⟩

/-- A deleted task leaves the blocks of the events as they are but for its place on one
wait list. -/
theorem deleted_event (k : Kernel) (p : ℕ) (i : TcbId) (e : EventId) :
    (k.deleted p i).OSEventTbl e = { k.OSEventTbl e with
      wait := if (k.OSTCBTbl i).OSTCBEventPtr = some e then (k.OSEventTbl e).wait.clear p
        else (k.OSEventTbl e).wait } := by
  rcases ptr : (k.OSTCBTbl i).OSTCBEventPtr with _ | e'
  · simp [Kernel.deleted, ptr]
  · by_cases same : e = e'
    · subst same
      simp [Kernel.deleted, ptr]
    · simp [Kernel.deleted, ptr, Function.update_of_ne same, Ne.symm same]

/-- **A task less** leaves the tables in order. -/
theorem Sound.of_delete (s : Sound k) (here : k.OSTCBPrioTbl p = .tcb i) :
    Sound (k.deleted p i) := by
  obtain ⟨mem, prio, inside⟩ := s.slot p i here
  have distinct := List.nodup_append'.mp s.pool
  have slot : ∀ q, (k.deleted p i).OSTCBPrioTbl q = if q = p then .null else k.OSTCBPrioTbl q :=
    fun q => Function.update_apply ..
  have others : ∀ j, j ≠ i → (k.deleted p i).OSTCBTbl j = k.OSTCBTbl j :=
    fun j other => Function.update_of_ne other ..
  have left : ∀ j ∈ (k.deleted p i).OSTCBList, j ≠ i ∧ j ∈ k.OSTCBList :=
    fun j mem' => distinct.1.mem_erase_iff.mp mem'
  have ready : (k.deleted p i).readySet = k.readySet \ {p} := s.setOf_deleted here _
  have waits : ∀ e, (k.deleted p i).waitSet e = k.waitSet e \ {p} :=
    fun e => s.setOf_deleted here _
  have type : ∀ e, ((k.deleted p i).OSEventTbl e).OSEventType = (k.OSEventTbl e).OSEventType :=
    fun e => by rw [deleted_event]
  constructor
  case slot =>
    intro q j there
    rw [slot] at there
    split_ifs at there with same
    have other := s.ne_of_slot here there same
    obtain ⟨mem', prio', lt⟩ := s.slot q j there
    exact ⟨distinct.1.mem_erase_iff.mpr ⟨other, mem'⟩, by rw [others j other, prio'], lt⟩
  case listed =>
    intro j mem'
    obtain ⟨other, mem'⟩ := left j mem'
    rw [others j other, slot]
    have there := s.listed j mem'
    have apart : (k.OSTCBTbl j).OSTCBPrio ≠ p := by
      intro same
      rw [same, here, Slot.tcb.injEq] at there
      exact other there.symm
    rw [if_neg apart, there]
  case blocks =>
    have perm : (k.OSTCBList.erase i ++ i :: k.OSTCBFreeList).Perm
        (k.OSTCBList ++ k.OSTCBFreeList) :=
      List.perm_middle.trans ((List.perm_cons_erase mem).symm.append_right _)
    exact perm.trans s.blocks
  case ctr =>
    have len : (k.OSTCBList.erase i).length = k.OSTCBList.length - 1 := List.length_erase_of_mem mem
    exact (congrArg (· - 1) s.ctr).trans len.symm
  case ready =>
    rw [ready]
    exact PrioTable.represents_clear s.ready inside
  case wait =>
    intro e
    rw [waits, deleted_event]
    simp only
    split_ifs with ptr
    · exact PrioTable.represents_clear (s.wait e) inside
    -- `OSTaskDel` leaves the other wait lists alone, which do not have the task
    · have absent : p ∉ k.waitSet e := by
        rintro ⟨j, there, registered⟩
        rw [here, Slot.tcb.injEq] at there
        subst there
        exact ptr registered.1
      rw [Set.sdiff_singleton_eq_self absent]
      exact s.wait e
  case phase =>
    intro j mem'
    obtain ⟨other, mem'⟩ := left j mem'
    rw [others j other]
    exact s.phase j mem'
  case typed =>
    intro j mem' e
    obtain ⟨other, mem'⟩ := left j mem'
    rw [others j other, type]
    exact s.typed j mem' e
  case noLostWakeup =>
    intro e offers
    have offers' : (k.OSEventTbl e).Available := by rwa [deleted_event] at offers
    rw [waits, s.noLostWakeup e offers', Set.empty_sdiff]
  case unused => exact fun e mem' => (type e).trans (s.unused e mem')
  case eventPool => exact s.eventPool
  case queue => exact fun e => by rw [deleted_event]; exact s.queue e

/-- **`OSTaskDel`**, called by a task; it does not delete itself with the scheduler locked. -/
theorem Consistent.osTaskDel (c : Consistent k) (call : k.InCall) {prio : ℕ}
    (unlocked : k.prioOf prio = k.tcbCur.OSTCBPrio → k.OSLockNesting = 0) :
    Consistent (k.osTaskDel prio).1 ∧ Settles k (k.osTaskDel prio).1 := by
  rcases c.sound.osTaskDel_cases prio with same | ⟨i, top, range, here, deleted⟩
  · rw [same]
    exact ⟨c, .refl k⟩
  obtain ⟨inTask, user, notIdle⟩ := call.task (by omega)
  have mem := c.live.mem_of_inTask inTask user
  have cur := c.sound.slot_cur c.live mem
  have apart : k.prioOf prio ≠ osTaskIdlePrio := by
    unfold Kernel.prioOf
    split_ifs with self
    · exact notIdle
    · exact (range.resolve_left self).ne
  have s := c.sound.of_delete here
  generalize k.prioOf prio = p at unlocked here deleted apart s
  obtain ⟨memI, prioI, -⟩ := c.sound.slot p i here
  have distinct := (List.nodup_append'.mp c.sound.pool).1
  rw [deleted, if_pos c.live.running,
    toSched_of_task (show (k.deleted p i).OSIntNesting = 0 from top)]
  have place : ((k.deleted p i).setPc k.OSTCBCur .sched).pc k.OSTCBCur = .sched :=
    Function.update_self ..
  have slot : ∀ q, (k.deleted p i).OSTCBPrioTbl q = if q = p then .null else k.OSTCBPrioTbl q :=
    fun q => Function.update_apply ..
  refine ⟨c.live.consistent_of_leaving call top (s.setPc ?_) ?_ place ?_ ?_ rfl rfl,
    ⟨rfl, rfl, rfl, rfl, fun nested => absurd top nested.ne'⟩,
    fun _ => Or.inl (congrArg Pc.beforeSched place)⟩
  · exact (congrArg Pc.waitsFor user).symm
  · by_cases self : k.OSTCBCur = i
    · right
      have own : p = k.OSPrioCur := by
        rw [c.live.prioCur, Kernel.tcbCur, self, prioI]
      have zero := unlocked (by rw [own, c.live.prioCur])
      refine ⟨?_, (slot k.OSPrioCur).trans (if_pos own.symm)⟩
      have lock : (k.deleted p i).OSLockNesting =
        if k.OSLockNesting < 255 then k.OSLockNesting else k.OSLockNesting - 1 := rfl
      refine lock.trans ?_
      rw [zero]
      rfl
    · exact Or.inl (distinct.mem_erase_iff.mpr ⟨self, mem⟩)
  · obtain ⟨j, front, there, runs, rest, tasks⟩ := c.live.idle
    have old : j ≠ i := c.sound.ne_of_slot here there apart.symm
    have other := c.idle_ne_cur there notIdle
    refine ⟨j, front.erase i, (slot _).trans ((if_neg apart.symm).trans there),
      runnable_update_of_ne old runs, (Function.update_of_ne other ..).trans rest, ?_⟩
    have inFront : i ∈ front := by
      rw [tasks, List.mem_append, List.mem_singleton] at memI
      exact memI.resolve_right old.symm
    exact (congrArg (List.erase · i) tasks).trans (List.erase_append_left [j] inFront)
  · have prio' : ((k.deleted p i).OSTCBTbl k.OSTCBCur).OSTCBPrio = k.tcbCur.OSTCBPrio :=
      prio_update rfl
    exact c.live.prioCur.trans prio'.symm

end Ucos

end CannonCar
