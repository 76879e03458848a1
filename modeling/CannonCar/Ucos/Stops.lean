import CannonCar.Ucos.Live

/-!
# Suspending, delaying, resuming and waiting

The services of `os_task.c` and `os_time.c` that keep a task from running or let it run
again, the first part of a pend call, and the lock of the scheduler.  Each of them changes
one task.

Two things the kernel does not check.  `OSTaskSuspend (OS_PRIO_SELF)` in an interrupt
suspends whatever task was interrupted, the idle task as well, and a task that deletes
itself with the scheduler locked goes on without a control block.  `Disciplined` leaves
both out.

## What is load-bearing

**Stopping a task takes its bit out and changes no wait.**  `Sound.of_stop` needs no more of the new
control block than that it may not run; whether it is suspended, delayed or waiting is the
caller's affair.

**Nothing is asked of the caller of `OSTaskResume` and `OSTimeDlyResume`**: a task that has not been
suspended, or not delayed, is left as it is.  A wait with a timeout is a delay too, and
`OSTimeDlyResume` ends it with a timeout.

`Settles` is what a service does to the choice of the scheduler: it leaves it standing or goes to
`OS_Sched`.
-/

namespace CannonCar

namespace Ucos

open TwoLevel

variable {k k' : Kernel} {i : TcbId} {p : ℕ} {t : Tcb} {e : EventId} {kind : EventKind}

/-! ### One task is kept from running -/

theorem Sound.slot_cur (s : Sound k) (l : Live k) (mem : k.OSTCBCur ∈ k.OSTCBList) :
    k.OSTCBPrioTbl k.OSPrioCur = .tcb k.OSTCBCur := by
  rw [l.prioCur]
  exact s.listed _ mem

/-- **The rule for stopping a task**: its priority leaves the ready list, and its wait is
not touched. -/
theorem Sound.of_stop (s : Sound k) (here : k.OSTCBPrioTbl p = .tcb i) (prio : t.OSTCBPrio = p)
    (stops : ¬ t.Runnable) (registered : ∀ e, (k.OSTCBTbl i).Registered e ↔ t.Registered e)
    (phase : Phase (k.pc i).waitsFor t) : Sound ((k.rdyClear p).setTcb i t) := by
  obtain ⟨mem, -, inside⟩ := s.slot p i here
  refine s.change (i := i) (t := t) ⟨rfl, rfl, rfl, rfl, rfl, rfl, fun _ _ => rfl, fun _ => rfl⟩
    here prio ?_ ?_ phase ?_ ?_
  · rw [adjust_of_not stops]
    exact PrioTable.represents_clear s.ready inside
  · exact fun e => s.represents_wait here (registered e)
  · exact fun e now => s.typed i mem e ((registered e).mpr now)
  · intro e now available
    have waiting : p ∈ k.waitSet e := ⟨i, here, (registered e).mpr now⟩
    rw [s.noLostWakeup e available] at waiting
    exact waiting

theorem sameSched_stop : SameSched k ((k.rdyClear p).setTcb i t) :=
  ⟨rfl, rfl, rfl, rfl, rfl, rfl, rfl, rfl, rfl, rfl⟩

theorem Phase.suspend {w : Option (EventKind × EventId)} (phase : Phase w t) :
    Phase w { t with OSTCBStat := t.OSTCBStat ||| osStatSuspend } := by
  rcases w with _ | ⟨kind, e⟩
  · obtain ⟨⟨suspended, stat⟩, ptr⟩ := phase
    exact ⟨⟨true, by rw [stat, statOf_or_suspend]⟩, ptr⟩
  · obtain ⟨ptr, suspended, ⟨stat, pending⟩ | ⟨stat, delay⟩⟩ := phase
    · exact ⟨ptr, true, Or.inl ⟨by rw [stat, statOf_or_suspend], pending⟩⟩
    · exact ⟨ptr, true, Or.inr ⟨by rw [stat, statOf_or_suspend], delay⟩⟩

/-- The status of a task is one of those that `statOf` lists. -/
theorem Phase.stat {w : Option (EventKind × EventId)} (phase : Phase w t) :
    ∃ waits suspended, t.OSTCBStat = statOf waits suspended := by
  rcases w with _ | ⟨kind, e⟩
  · obtain ⟨⟨suspended, stat⟩, -⟩ := phase
    exact ⟨none, suspended, stat⟩
  · obtain ⟨-, suspended, ⟨stat, -⟩ | ⟨stat, -⟩⟩ := phase
    · exact ⟨some kind, suspended, stat⟩
    · exact ⟨none, suspended, stat⟩

/-- Suspending a task does not touch its wait. -/
theorem Phase.registered_suspend {w : Option (EventKind × EventId)} (phase : Phase w t)
    (e : EventId) :
    t.Registered e ↔ { t with OSTCBStat := t.OSTCBStat ||| osStatSuspend : Tcb }.Registered e := by
  obtain ⟨waits, suspended, stat⟩ := phase.stat
  simp only [Tcb.Registered, stat, statOf_or_suspend, statOf_and_pendAny]

theorem Phase.not_runnable_suspend {w : Option (EventKind × EventId)} (phase : Phase w t) :
    ¬ { t with OSTCBStat := t.OSTCBStat ||| osStatSuspend : Tcb }.Runnable := by
  obtain ⟨waits, suspended, stat⟩ := phase.stat
  rintro ⟨ready, -⟩
  simp only [stat, statOf_or_suspend, statOf_eq_rdy] at ready
  exact absurd ready.2 (by simp)

/-- What `OSTaskSuspend` leaves of the tables. -/
theorem Sound.of_suspend (s : Sound k) (here : k.OSTCBPrioTbl p = .tcb i)
    (block : t = { k.OSTCBTbl i with OSTCBStat := (k.OSTCBTbl i).OSTCBStat ||| osStatSuspend }) :
    Sound ((k.rdyClear p).setTcb i t) := by
  obtain ⟨mem, prio, -⟩ := s.slot p i here
  have phase := s.phase i mem
  subst block
  exact s.of_stop here prio phase.not_runnable_suspend phase.registered_suspend phase.suspend

/-- The variables that say who runs, which no service touches; the scheduler is locked and
unlocked by tasks alone. -/
structure SameRun (k k' : Kernel) : Prop where
  cur : k'.OSTCBCur = k.OSTCBCur
  prioCur : k'.OSPrioCur = k.OSPrioCur
  int : k'.OSIntNesting = k.OSIntNesting
  pendSV : k'.pendSV = k.pendSV
  lock : 0 < k.OSIntNesting → k'.OSLockNesting = k.OSLockNesting

theorem SameSched.run (same : SameSched k k') : SameRun k k' :=
  ⟨same.cur, same.prioCur, same.int, same.pendSV, fun _ => same.lock⟩

/-- After a call the scheduler's choice still stands, or is made anew next. -/
structure Settles (k k' : Kernel) : Prop where
  run : SameRun k k'
  choice : k.InTask → (k'.pc k.OSTCBCur).beforeSched = true ∨
    (k'.readySet ⊆ k.readySet ∧ (k'.OSLockNesting = 0 → k.OSLockNesting = 0))

theorem Settles.refl (k : Kernel) : Settles k k :=
  ⟨⟨rfl, rfl, rfl, rfl, fun _ => rfl⟩, fun _ => Or.inr ⟨subset_rfl, id⟩⟩

theorem settles_toSched (same : SameSched k k') : Settles k (k'.toSched .sched) := by
  refine ⟨(same.trans (sameSched_toSched .sched)).run, fun inTask => ?_⟩
  have place : (k'.toSched .sched).pc k.OSTCBCur = .sched := by
    rw [toSched_of_task (by rw [same.int, inTask.1]), same.cur]
    exact Function.update_self ..
  rw [place]
  exact Or.inl rfl

/-- The ready list after a change that makes nobody ready. -/
theorem settles_of_update (same : SameSched k k')
    (tcb : k'.OSTCBTbl = Function.update k.OSTCBTbl i t)
    (runs : t.Runnable → (k.OSTCBTbl i).Runnable) : Settles k k' := by
  refine ⟨same.run, fun _ => Or.inr ⟨?_, fun unlocked => same.lock ▸ unlocked⟩⟩
  rintro q ⟨j, there, runs'⟩
  rw [same.prioTbl] at there
  rw [tcb, Function.update_apply] at runs'
  split_ifs at runs' with here
  · exact ⟨j, there, here ▸ runs runs'⟩
  · exact ⟨j, there, runs'⟩

theorem prio_update {j : TcbId} (prio : t.OSTCBPrio = (k.OSTCBTbl i).OSTCBPrio) :
    (Function.update k.OSTCBTbl i t j).OSTCBPrio = (k.OSTCBTbl j).OSTCBPrio := by
  rw [Function.update_apply]
  split_ifs with same
  · rw [prio, same]
  · rfl

theorem runnable_update_of_ne {j : TcbId} (other : j ≠ i) (runs : (k.OSTCBTbl j).Runnable) :
    (Function.update k.OSTCBTbl i t j).Runnable := by
  rwa [Function.update_of_ne other]

/-- **`OSTaskSuspend`.** -/
theorem Consistent.osTaskSuspend (c : Consistent k) (call : k.InCall) {prio : ℕ}
    (notIdle : prio = osPrioSelf → k.tcbCur.OSTCBPrio ≠ osTaskIdlePrio) :
    Consistent (k.osTaskSuspend prio).1 ∧ Settles k (k.osTaskSuspend prio).1 := by
  unfold Kernel.osTaskSuspend
  split_ifs with idle range
  · exact ⟨c, .refl k⟩
  · exact ⟨c, .refl k⟩
  have other : k.prioOf prio ≠ osTaskIdlePrio := by
    unfold Kernel.prioOf
    split_ifs with self
    · exact notIdle self
    · exact idle
  simp only
  generalize k.prioOf prio = p at other ⊢
  split
  · exact ⟨c, .refl k⟩
  · exact ⟨c, .refl k⟩
  next i here =>
  obtain ⟨mem, prio', -⟩ := c.sound.slot p i here
  generalize block : ({ k.OSTCBTbl i with
    OSTCBStat := (k.OSTCBTbl i).OSTCBStat ||| osStatSuspend } : Tcb) = t
  rw [prio']
  have s := c.sound.of_suspend here block.symm
  have same : SameSched k ((k.rdyClear p).setTcb i t) := sameSched_stop
  have tPrio : t.OSTCBPrio = (k.OSTCBTbl i).OSTCBPrio := by rw [← block]
  have runs : t.Runnable → (k.OSTCBTbl i).Runnable := fun runs => by
    rw [← block] at runs
    exact absurd runs (c.sound.phase i mem).not_runnable_suspend
  have idle' : ∀ j, k.OSTCBPrioTbl osTaskIdlePrio = .tcb j → j ≠ i :=
    fun j there => c.sound.ne_of_slot here there other.symm
  split_ifs with self
  · refine ⟨c.of_toSched call s same rfl (prio_update tPrio) fun j there runs => ?_,
      settles_toSched same⟩
    exact runnable_update_of_ne (idle' j there) runs
  · have apart : k.OSTCBCur ≠ i := by
      rintro rfl
      exact self prio'.symm
    refine ⟨⟨s, c.live.of_call call same (prio_update tPrio) ?_ ?_ ?_ ?_⟩,
      settles_of_update same rfl runs⟩
    · intro j there runs
      exact ⟨runnable_update_of_ne (idle' j there) runs, rfl⟩
    · exact fun _ => rfl
    · intro inTask
      rcases call with nested | ⟨-, user, -⟩
      · exact absurd inTask.1 nested.ne'
      · exact Or.inr ⟨user, runnable_update_of_ne apart⟩
    · exact fun _ lock => (c.live.locked lock).2

/-! ### Delays -/

/-- **`OSTimeDly`.** -/
theorem Consistent.osTimeDly (c : Consistent k) (call : k.InCall) (ticks : ℕ) :
    Consistent (k.osTimeDly ticks) ∧ Settles k (k.osTimeDly ticks) := by
  unfold Kernel.osTimeDly
  split_ifs with nested locked delay
  · exact ⟨c, .refl k⟩
  · exact ⟨c, .refl k⟩
  · obtain ⟨inTask, user, notIdle⟩ := call.resolve_left nested
    have mem := c.live.mem_of_inTask inTask user
    have here := c.sound.slot_cur c.live mem
    rw [c.live.prioCur] at here
    have phase := c.sound.phase _ mem
    rw [user] at phase
    generalize block : ({ k.tcbCur with OSTCBDly := ticks } : Tcb) = t
    have stops : ¬ t.Runnable := by
      rw [← block]
      exact fun runs => delay.ne' runs.2
    have registered : ∀ e, (k.OSTCBTbl k.OSTCBCur).Registered e ↔ t.Registered e := by
      rw [← block]
      exact fun e => Iff.rfl
    have s : Sound ((k.rdyClear k.tcbCur.OSTCBPrio).setTcb k.OSTCBCur t) := by
      refine c.sound.of_stop here (by rw [← block]) stops registered ?_
      rw [user, ← block]
      exact phase
    refine ⟨c.of_toSched call s sameSched_stop rfl (prio_update (by rw [← block]; rfl)) ?_,
      settles_toSched sameSched_stop⟩
    exact fun j there => runnable_update_of_ne (c.idle_ne_cur there notIdle)
  · exact ⟨c, .refl k⟩

theorem Consistent.osTimeDlyHMSM (c : Consistent k) (call : k.InCall)
    (hours minutes seconds ms : ℕ) :
    Consistent (k.osTimeDlyHMSM hours minutes seconds ms).1 ∧
      Settles k (k.osTimeDlyHMSM hours minutes seconds ms).1 := by
  unfold Kernel.osTimeDlyHMSM
  split_ifs
  case neg => exact c.osTimeDly call _
  all_goals exact ⟨c, .refl k⟩

/-- A delay that is cut short, or has run out in a tick. -/
theorem Consistent.osTimeDlyResume (c : Consistent k) (call : k.InCall) (prio : ℕ) :
    Consistent (k.osTimeDlyResume prio).1 ∧ Settles k (k.osTimeDlyResume prio).1 := by
  unfold Kernel.osTimeDlyResume
  split_ifs with range
  · exact ⟨c, .refl k⟩
  split
  · exact ⟨c, .refl k⟩
  · exact ⟨c, .refl k⟩
  next i here =>
  split_ifs with delay
  · exact ⟨c, .refl k⟩
  have w := c.sound.wakes_dlyExpired here delay
  simp only
  split_ifs with ready
  · exact ⟨c.of_toSched call w.sound w.same w.pc (w.prio _) fun j _ => w.runnable j,
      settles_toSched w.same⟩
  · refine ⟨c.of_keeps call w.toKeeps, settles_of_update (i := i) (t := (k.dlyExpired i).OSTCBTbl i)
      w.same ?_ ?_⟩
    · rw [dlyExpired_eq k i rfl]
      simp
    · intro runs
      rw [runs.1] at ready
      exact absurd (by decide) ready

/-! ### `OSTaskResume` -/

theorem Phase.resume {w : Option (EventKind × EventId)} (phase : Phase w t) :
    Phase w { t with OSTCBStat := t.OSTCBStat &&& ~~~osStatSuspend } := by
  rcases w with _ | ⟨kind, e⟩
  · obtain ⟨⟨suspended, stat⟩, ptr⟩ := phase
    exact ⟨⟨false, by rw [stat, statOf_clear_suspend]⟩, ptr⟩
  · obtain ⟨ptr, suspended, ⟨stat, pending⟩ | ⟨stat, delay⟩⟩ := phase
    · exact ⟨ptr, false, Or.inl ⟨by rw [stat, statOf_clear_suspend], pending⟩⟩
    · exact ⟨ptr, false, Or.inr ⟨by rw [stat, statOf_clear_suspend], delay⟩⟩

/-- Resuming a task does not touch its wait. -/
theorem Phase.registered_resume {w : Option (EventKind × EventId)} (phase : Phase w t)
    (e : EventId) :
    t.Registered e ↔
      { t with OSTCBStat := t.OSTCBStat &&& ~~~osStatSuspend : Tcb }.Registered e := by
  obtain ⟨waits, suspended, stat⟩ := phase.stat
  simp only [Tcb.Registered, stat, statOf_clear_suspend, statOf_and_pendAny]

/-- What `OSTaskResume` leaves of the tables. -/
theorem Sound.keeps_of_resume (s : Sound k) (here : k.OSTCBPrioTbl p = .tcb i)
    (suspended : (k.OSTCBTbl i).OSTCBStat &&& osStatSuspend ≠ osStatRdy)
    (block : t = { k.OSTCBTbl i with
      OSTCBStat := (k.OSTCBTbl i).OSTCBStat &&& ~~~osStatSuspend }) :
    Keeps k { k with
      OSTCBTbl := Function.update k.OSTCBTbl i t
      OSRdy := if t.Runnable then k.OSRdy.set p else k.OSRdy } := by
  obtain ⟨mem, prio, -⟩ := s.slot p i here
  have phase := s.phase i mem
  have runs : (k.OSTCBTbl i).Runnable → t.Runnable := fun runs => by
    rw [runs.1] at suspended
    exact absurd BitVec.zero_and suspended
  have ready := s.represents_ready here runs
  subst block
  refine s.keeps_of_change ⟨rfl, rfl, rfl, rfl, rfl, rfl, fun _ _ => rfl, fun _ => rfl⟩
    ⟨rfl, rfl, rfl, rfl, rfl, rfl, rfl, rfl, rfl, rfl⟩ rfl here prio runs ready ?_ phase.resume ?_
  · exact fun e => s.represents_wait here (phase.registered_resume e)
  · exact fun e => (phase.registered_resume e).mpr

/-- **`OSTaskResume`.** -/
theorem Consistent.osTaskResume (c : Consistent k) (call : k.InCall) (prio : ℕ) :
    Consistent (k.osTaskResume prio).1 ∧ Settles k (k.osTaskResume prio).1 := by
  unfold Kernel.osTaskResume
  split_ifs with range
  · exact ⟨c, .refl k⟩
  split
  · exact ⟨c, .refl k⟩
  · exact ⟨c, .refl k⟩
  next i here =>
  simp only
  generalize block : ({ k.OSTCBTbl i with
    OSTCBStat := (k.OSTCBTbl i).OSTCBStat &&& ~~~osStatSuspend } : Tcb) = t
  have runnable : (k.OSTCBTbl i).OSTCBStat &&& ~~~osStatSuspend = osStatRdy ∧
      (k.OSTCBTbl i).OSTCBDly = 0 ↔ t.Runnable := by
    rw [← block]
    exact Iff.rfl
  have tPrio : (k.OSTCBTbl i).OSTCBPrio = prio := (c.sound.slot prio i here).2.1
  rw [tPrio]
  split_ifs with suspended ready running
  · have keeps := c.sound.keeps_of_resume here suspended block.symm
    rw [if_pos (runnable.mp ready)] at keeps
    exact ⟨c.of_toSched call keeps.sound keeps.same rfl (keeps.prio _) fun j _ => keeps.runnable j,
      settles_toSched keeps.same⟩
  · exact absurd c.live.running running
  · have keeps := c.sound.keeps_of_resume here suspended block.symm
    rw [if_neg fun runs => ready (runnable.mpr runs)] at keeps
    exact ⟨c.of_keeps call keeps,
      settles_of_update keeps.same rfl fun runs => absurd (runnable.mpr runs) ready⟩
  · exact ⟨c, .refl k⟩

/-! ### Pend calls -/

/-- The control block of a task that begins to wait. -/
def Tcb.waiting (kind : EventKind) (e : EventId) (timeout : ℕ) (t : Tcb) : Tcb :=
  { t with
    OSTCBStat := t.OSTCBStat ||| kind.osStat
    OSTCBStatPend := .pendOk
    OSTCBDly := timeout
    OSTCBEventPtr := some e }

/-- What the first part of a pend call writes. -/
theorem osPendBegin_eq (k : Kernel) (kind : EventKind) (e : EventId) (timeout : ℕ)
    (block : k.tcbCur.waiting kind e timeout = t) :
    k.osPendBegin kind e timeout =
      { k with
        OSTCBTbl := Function.update k.OSTCBTbl k.OSTCBCur t
        OSRdy := k.OSRdy.clear t.OSTCBPrio
        OSEventTbl := Function.update k.OSEventTbl e { k.OSEventTbl e with
          wait := (k.OSEventTbl e).wait.set t.OSTCBPrio }
        pc := Function.update k.pc k.OSTCBCur (.pendSched kind e) } := by
  subst block
  simp only [Kernel.osPendBegin, Kernel.osEventTaskWait, Kernel.tcbCur, Kernel.setTcb,
    Kernel.setEvent, Kernel.setPc, Kernel.rdyClear, Function.update_self, Function.update_idem]
  rfl

theorem Phase.waiting (phase : Phase none t) (kind : EventKind) (e : EventId) (timeout : ℕ) :
    Phase (some (kind, e)) (t.waiting kind e timeout) ∧
      ¬ (t.waiting kind e timeout).Runnable ∧
      ∀ e', (t.waiting kind e timeout).Registered e' ↔ e' = e := by
  obtain ⟨⟨suspended, stat⟩, -⟩ := phase
  have waits : t.OSTCBStat ||| kind.osStat = statOf (some kind) suspended := by
    rw [stat, statOf_or_kind]
  refine ⟨⟨rfl, suspended, Or.inl ⟨waits, rfl⟩⟩, ?_, fun e' => ?_⟩
  · rintro ⟨ready, -⟩
    rw [show (t.waiting kind e timeout).OSTCBStat = _ from waits, statOf_eq_rdy] at ready
    exact absurd ready.1 (by simp)
  · rw [Tcb.Registered, show (t.waiting kind e timeout).OSTCBStat = _ from waits,
      statOf_and_pendAny]
    simp [Tcb.waiting, eq_comm]

/-- **The first part of a pend call**, for an event of the right kind that offers nothing. -/
theorem Consistent.osPendBegin (c : Consistent k) (inTask : k.InTask)
    (user : k.pc k.OSTCBCur = .user) (notIdle : k.tcbCur.OSTCBPrio ≠ osTaskIdlePrio)
    (unlocked : k.OSLockNesting = 0) (type : (k.OSEventTbl e).OSEventType = some kind)
    (nothing : ¬ (k.OSEventTbl e).Available) (timeout : ℕ) :
    Consistent (k.osPendBegin kind e timeout) ∧ Settles k (k.osPendBegin kind e timeout) := by
  have mem := c.live.mem_of_inTask inTask user
  have here := c.sound.slot_cur c.live mem
  obtain ⟨-, prio, inside⟩ := c.sound.slot _ _ here
  have outside : Phase none k.tcbCur := by
    have phase := c.sound.phase _ mem
    rwa [user] at phase
  obtain ⟨phase, stops, registered⟩ := outside.waiting kind e timeout
  have tPrio : (k.tcbCur.waiting kind e timeout).OSTCBPrio = k.OSPrioCur := prio
  generalize block : k.tcbCur.waiting kind e timeout = t at *
  rw [osPendBegin_eq k kind e timeout block, tPrio]
  generalize result : ({ k with
    OSTCBTbl := _, OSRdy := _, OSEventTbl := _, pc := _ } : Kernel) = k'
  have only : OnlyTask k k' k.OSTCBCur t := by
    subst result
    refine ⟨rfl, rfl, rfl, rfl, rfl, rfl, fun j other => ?_, fun e' => ?_⟩
    · exact Function.update_of_ne other ..
    · by_cases same : e' = e
      · subst same
        simp
      · simp [Function.update_of_ne same]
  have place : k'.pc k.OSTCBCur = .pendSched kind e := by
    subst result
    exact Function.update_self ..
  have same : SameSched k k' := by
    subst result
    exact ⟨rfl, rfl, rfl, rfl, rfl, rfl, rfl, rfl, rfl, rfl⟩
  have s : Sound k' := by
    refine c.sound.change only here tPrio ?_ ?_ ?_ ?_ ?_
    · rw [adjust_of_not stops]
      subst result
      exact PrioTable.represents_clear c.sound.ready inside
    -- outside a pend call the task was on no wait list
    · intro e'
      by_cases this : e' = e
      · rw [adjust_of ((registered e').mpr this)]
        subst result this
        simp only [Function.update_self]
        exact PrioTable.represents_set (c.sound.wait e') inside
      · subst result
        simp only [Function.update_of_ne this]
        refine c.sound.represents_wait here (iff_of_false ?_ ?_)
        · exact Tcb.not_registered_of_phase outside e'
        · exact fun now => this ((registered e').mp now)
    · rw [place]
      exact phase
    · intro e' now
      rw [place, (registered e').mp now]
      exact ⟨kind, rfl, type⟩
    · intro e' now
      rwa [(registered e').mp now]
  refine ⟨⟨s, c.live.of_call (Or.inr ⟨inTask, user, notIdle⟩) same ?_ ?_ ?_ ?_ ?_⟩,
    same.run, fun _ => Or.inl (by rw [place]; rfl)⟩
  · rw [only.tcb, Function.update_self, tPrio, c.live.prioCur]
  · intro j there runs
    have other := c.idle_ne_cur there notIdle
    rw [only.tcb]
    exact ⟨runnable_update_of_ne other runs, only.pc j other⟩
  · exact fun nested => absurd inTask.1 nested.ne'
  · exact fun _ => Or.inl (by rw [place]; rfl)
  · exact fun _ lock => absurd unlocked lock.ne'

/-- The pend calls check who calls before they wait. -/
theorem Kernel.InCall.task (call : k.InCall) (top : ¬ 0 < k.OSIntNesting) :
    k.InTask ∧ k.pc k.OSTCBCur = .user ∧ k.tcbCur.OSTCBPrio ≠ osTaskIdlePrio :=
  call.resolve_left top

/-- A call that does not wait and leaves all tasks alone. -/
theorem Consistent.of_serves_settles (c : Consistent k) (call : k.InCall) {noSched : Bool}
    (serves : Serves noSched k k') :
    Consistent k' ∧ SameRun k k' ∧ (noSched = false → Settles k k') := by
  refine ⟨c.of_serves call serves, ?_⟩
  rcases serves with ⟨w, same⟩ | ⟨k'', w, rfl⟩
  · exact ⟨w.same.run, fun now => ⟨w.same.run, fun _ =>
      Or.inr ⟨(same now).subset, fun unlocked => w.same.lock ▸ unlocked⟩⟩⟩
  · exact ⟨(settles_toSched w.same).run, fun _ => settles_toSched w.same⟩

/-- A call that takes what a block offers. -/
theorem Consistent.take (c : Consistent k) (call : k.InCall) {v : Event}
    (offers : (k.OSEventTbl e).Available) (wait : v.wait = (k.OSEventTbl e).wait)
    (type : v.OSEventType = (k.OSEventTbl e).OSEventType) (pq : v.pq.Ok) :
    Consistent (k.setEvent e v) ∧ Settles k (k.setEvent e v) := by
  have serves : Serves false k (k.setEvent e v) :=
    c.sound.serves_setEvent wait type (fun _ => c.sound.noLostWakeup e offers) pq
  exact (c.of_serves_settles call serves).imp_right fun settles => settles.2 rfl

theorem Consistent.osSemPend (c : Consistent k) (call : k.InCall) (pevent : Option EventId)
    (timeout : ℕ) :
    Consistent (k.osSemPend pevent timeout).1 ∧ Settles k (k.osSemPend pevent timeout).1 := by
  unfold Kernel.osSemPend
  split
  · exact ⟨c, .refl k⟩
  next e =>
  simp only
  split_ifs with type nested locked count
  · exact ⟨c, .refl k⟩
  · exact ⟨c, .refl k⟩
  · exact ⟨c, .refl k⟩
  · refine c.take call ?_ rfl rfl (c.sound.queue e)
    rw [Event.Available, not_not.mp type]
    exact count
  · obtain ⟨inTask, user, notIdle⟩ := call.task nested
    refine c.osPendBegin inTask user notIdle (by omega) (not_not.mp type) ?_ timeout
    rw [Event.Available, not_not.mp type]
    exact count

theorem Consistent.osMboxPend (c : Consistent k) (call : k.InCall) (pevent : Option EventId)
    (timeout : ℕ) :
    Consistent (k.osMboxPend pevent timeout).1 ∧ Settles k (k.osMboxPend pevent timeout).1 := by
  unfold Kernel.osMboxPend
  split
  · exact ⟨c, .refl k⟩
  next e =>
  simp only
  split_ifs with type nested locked full
  · exact ⟨c, .refl k⟩
  · exact ⟨c, .refl k⟩
  · exact ⟨c, .refl k⟩
  · refine c.take call ?_ rfl rfl (c.sound.queue e)
    rw [Event.Available, not_not.mp type]
    exact full
  · obtain ⟨inTask, user, notIdle⟩ := call.task nested
    refine c.osPendBegin inTask user notIdle (by omega) (not_not.mp type) ?_ timeout
    rw [Event.Available, not_not.mp type]
    exact full

theorem Consistent.osQPend (c : Consistent k) (call : k.InCall) (pevent : Option EventId)
    (timeout : ℕ) :
    Consistent (k.osQPend pevent timeout).1 ∧ Settles k (k.osQPend pevent timeout).1 := by
  unfold Kernel.osQPend
  split
  · exact ⟨c, .refl k⟩
  next e =>
  simp only
  split_ifs with type nested locked count
  · exact ⟨c, .refl k⟩
  · exact ⟨c, .refl k⟩
  · exact ⟨c, .refl k⟩
  · refine c.take call ?_ rfl rfl ((c.sound.queue e).get count)
    rw [Event.Available, not_not.mp type]
    exact count
  · obtain ⟨inTask, user, notIdle⟩ := call.task nested
    refine c.osPendBegin inTask user notIdle (by omega) (not_not.mp type) ?_ timeout
    rw [Event.Available, not_not.mp type]
    exact count

/-! ### The lock of the scheduler -/

/-- The running task takes or gives back the lock, and goes on to `OS_Sched` if it has
given it back for the last time. -/
theorem Consistent.of_lock (c : Consistent k) (inTask : k.InTask) (user : k.pc k.OSTCBCur = .user)
    (notIdle : k.tcbCur.OSTCBPrio ≠ osTaskIdlePrio) {n : ℕ} {place : Pc}
    (goesOn : (place = .user ∧ 0 < n) ∨ place = .sched) :
    Consistent ({ k with OSLockNesting := n }.setPc k.OSTCBCur place) := by
  have mem := c.live.mem_of_inTask inTask user
  have outside : place.waitsFor = none := by
    rcases goesOn with ⟨rfl, -⟩ | rfl <;> rfl
  have s : Sound { k with OSLockNesting := n } :=
    c.sound.of_tables rfl rfl rfl rfl rfl rfl rfl rfl rfl
  have here : ({ k with OSLockNesting := n }.setPc k.OSTCBCur place).pc k.OSTCBCur = place :=
    Function.update_self ..
  refine ⟨s.setPc (by rw [outside, user]; rfl), ⟨c.live.running, ?idle, c.live.prioCur, Or.inl mem,
    ?locked⟩, ?switch, ?atRest⟩
  case idle =>
    obtain ⟨i, front, there, runs, rest, list⟩ := c.live.idle
    refine ⟨i, front, there, runs, ?_, list⟩
    exact (Function.update_of_ne (c.idle_ne_cur there notIdle) place k.pc).trans rest
  case locked => exact fun _ => ⟨inTask.2, (congrArg Pc.waitsFor here).trans outside⟩
  case switch =>
    intro due
    exact absurd (inTask.2.symm.trans due) (by simp)
  case atRest =>
    intro _ unlocked _ rest
    rcases goesOn with ⟨-, held⟩ | sched
    · exact absurd unlocked held.ne'
    · have leaves : Pc.beforeSched .sched = false := by
        rw [← sched]
        exact (congrArg Pc.beforeSched here).symm.trans rest
      exact absurd leaves (by simp [Pc.beforeSched])

/-- The same for a task that goes on with the scheduler locked. -/
theorem Consistent.of_locked (c : Consistent k) (inTask : k.InTask) (user : k.pc k.OSTCBCur = .user)
    (notIdle : k.tcbCur.OSTCBPrio ≠ osTaskIdlePrio) {n : ℕ} (held : 0 < n) :
    Consistent { k with OSLockNesting := n } := by
  have stays : { k with OSLockNesting := n }.setPc k.OSTCBCur .user =
      { k with OSLockNesting := n } := by
    have same : Function.update k.pc k.OSTCBCur .user = k.pc := by
      rw [← user, Function.update_eq_self]
    simp only [Kernel.setPc, same]
  rw [← stays]
  exact c.of_lock inTask user notIdle (Or.inl ⟨rfl, held⟩)

theorem Consistent.osSchedLock (c : Consistent k) (call : k.InCall) :
    Consistent k.osSchedLock ∧ Settles k k.osSchedLock := by
  unfold Kernel.osSchedLock
  split_ifs with free
  · obtain ⟨inTask, user, notIdle⟩ := call.task (by omega)
    exact ⟨c.of_locked inTask user notIdle (Nat.succ_pos _),
      ⟨rfl, rfl, rfl, rfl, fun nested => absurd free.2.1 nested.ne'⟩,
      fun _ => Or.inr ⟨subset_rfl, fun zero => absurd zero (Nat.succ_ne_zero _)⟩⟩
  · exact ⟨c, .refl k⟩

theorem Consistent.osSchedUnlock (c : Consistent k) (call : k.InCall) :
    Consistent k.osSchedUnlock ∧ Settles k k.osSchedUnlock := by
  unfold Kernel.osSchedUnlock
  split_ifs with held
  · obtain ⟨inTask, user, notIdle⟩ := call.task (by omega)
    simp only
    split_ifs with last
    · rw [Kernel.toSched, if_pos inTask.1]
      refine ⟨c.of_lock inTask user notIdle (Or.inr rfl),
        ⟨rfl, rfl, rfl, rfl, fun nested => absurd held.2.1 nested.ne'⟩, fun _ => Or.inl ?_⟩
      exact congrArg Pc.beforeSched (Function.update_self k.OSTCBCur Pc.sched k.pc)
    · exact ⟨c.of_locked inTask user notIdle (Nat.pos_of_ne_zero last),
        ⟨rfl, rfl, rfl, rfl, fun nested => absurd held.2.1 nested.ne'⟩,
        fun _ => Or.inr ⟨subset_rfl, fun zero => absurd zero last⟩⟩
  · exact ⟨c, .refl k⟩

theorem Consistent.osTimeSet (c : Consistent k) (call : k.InCall) (ticks : BitVec 32) :
    Consistent (k.osTimeSet ticks) ∧ Settles k (k.osTimeSet ticks) := by
  refine ⟨c.of_keeps call ?_, ⟨rfl, rfl, rfl, rfl, fun _ => rfl⟩,
    fun _ => Or.inr ⟨subset_rfl, id⟩⟩
  have w : Wakes False k (k.osTimeSet ticks) :=
    .of_same c.sound ⟨rfl, rfl, rfl, rfl, rfl, rfl, rfl, rfl, rfl, rfl⟩ rfl rfl rfl rfl rfl rfl rfl
  exact w.toKeeps

end Ucos

end CannonCar
