import CannonCar.Ucos.Frames

/-!
# From a post to the task that waits

A post to an event with tasks on its wait list hands the message to the one of the highest
priority and to nobody else, and what it hands over is what that task's pend call answers,
whatever happens in between: the task may be suspended and resumed, its timeout may pass,
the event may be deleted, and other messages may be posted.

## What is load-bearing

**From the post on, the message is in a control block.**  `Holds` says that the task is in its pend
call, off the wait list, with the message and the answer `OS_ERR_NONE`.  Nothing that happens
then concerns the event, so it does not matter what becomes of it.

**Arriving is a step of the run** (`Kernel.Ends`): the one at which the task's pend call ends,
and what it answers there.  A run in which it has not come yet still has the message in the
control block.

**Only deletion takes it away**, of the task and not of the event.
-/

namespace CannonCar

namespace Ucos

open TwoLevel Trajectory

variable {k k' : Kernel} {i : TcbId} {e : EventId} {kind : EventKind} {m : ℕ}

/-- What a service posts, and where: a semaphore's signal is the message 0. -/
def Call.posting : Call → Option (EventKind × EventId × ℕ)
  | .semPost (some e) => some (.sem, e, 0)
  | .mboxPost (some e) m => if m = 0 then none else some (.mbox, e, m)
  | .mboxPostOpt (some e) m opt =>
      if m = 0 ∨ opt.broadcast = true then none else some (.mbox, e, m)
  | .qPost (some e) m | .qPostFront (some e) m => some (.q, e, m)
  | .qPostOpt (some e) m opt => if opt.broadcast = true then none else some (.q, e, m)
  | _ => none

/-- **A post with tasks on the wait list** wakes one of them, and no more. -/
theorem exec_posting {c : Call} (posts : c.posting = some (kind, e, m))
    (type : (k.OSEventTbl e).OSEventType = some kind) (group : (k.OSEventTbl e).wait.grp ≠ 0) :
    k.exec c = k.osEventTaskRdy e m kind.osStat .pendOk ∨
      k.exec c = (k.osEventTaskRdy e m kind.osStat .pendOk).toSched .sched := by
  have waiting : ∀ {opt : Kernel.PostOpt}, ¬ opt.broadcast = true →
      k.osPostWaiting kind e m opt = k.osEventTaskRdy e m kind.osStat .pendOk ∨
        k.osPostWaiting kind e m opt =
          (k.osEventTaskRdy e m kind.osStat .pendOk).toSched .sched := by
    intro opt one
    simp only [Kernel.osPostWaiting, if_neg one]
    split_ifs
    · exact Or.inl rfl
    · exact Or.inr rfl
  unfold Call.posting at posts
  split at posts
  · obtain ⟨rfl, rfl, rfl⟩ : EventKind.sem = kind ∧ _ = e ∧ 0 = m := by simpa using posts
    refine Or.inr ?_
    simp only [Kernel.exec, Kernel.osSemPost, type, ne_eq, not_true_eq_false, if_false, group,
      not_false_eq_true, if_true]
  · split_ifs at posts with null
    obtain ⟨rfl, rfl, rfl⟩ : EventKind.mbox = kind ∧ _ = e ∧ _ = m := by simpa using posts
    simp only [Kernel.exec, Kernel.osMboxPost, Kernel.osMboxPostOpt, type, ne_eq,
      not_true_eq_false, if_false, group, not_false_eq_true, if_true, null]
    exact waiting (by simp)
  · split_ifs at posts with null
    obtain ⟨rfl, rfl, rfl⟩ : EventKind.mbox = kind ∧ _ = e ∧ _ = m := by simpa using posts
    rw [not_or] at null
    simp only [Kernel.exec, Kernel.osMboxPostOpt, type, ne_eq, not_true_eq_false, if_false, group,
      not_false_eq_true, if_true, null.1]
    exact waiting null.2
  · obtain ⟨rfl, rfl, rfl⟩ : EventKind.q = kind ∧ _ = e ∧ _ = m := by simpa using posts
    simp only [Kernel.exec, Kernel.osQPost, Kernel.osQPostOpt, type, ne_eq, not_true_eq_false,
      if_false, group, not_false_eq_true, if_true]
    exact waiting (by simp)
  · obtain ⟨rfl, rfl, rfl⟩ : EventKind.q = kind ∧ _ = e ∧ _ = m := by simpa using posts
    simp only [Kernel.exec, Kernel.osQPostFront, Kernel.osQPostOpt, type, ne_eq,
      not_true_eq_false, if_false, group, not_false_eq_true, if_true]
    exact waiting (by simp)
  · split_ifs at posts with broadcast
    obtain ⟨rfl, rfl, rfl⟩ : EventKind.q = kind ∧ _ = e ∧ _ = m := by simpa using posts
    simp only [Kernel.exec, Kernel.osQPostOpt, type, ne_eq, not_true_eq_false, if_false, group,
      not_false_eq_true, if_true]
    exact waiting broadcast
  · exact absurd posts (by simp)

/-! ### The task that has been woken -/

/-- The task has been handed `m` and has not come out of its pend call. -/
structure Holds (kind : EventKind) (e : EventId) (m : ℕ) (k : Kernel) (i : TcbId) : Prop where
  mem : i ∈ k.OSTCBList
  place : (k.pc i).waitsFor = some (kind, e)
  statPend : (k.OSTCBTbl i).OSTCBStatPend = .pendOk
  dly : (k.OSTCBTbl i).OSTCBDly = 0
  msg : (k.OSTCBTbl i).OSTCBMsg = m
  stat : ∃ suspended, (k.OSTCBTbl i).OSTCBStat = statOf none suspended

theorem Holds.free (holds : Holds kind e m k i) (e' : EventId) :
    ¬ (k.OSTCBTbl i).Registered e' := by
  obtain ⟨suspended, stat⟩ := holds.stat
  rintro ⟨-, waits | timedOut⟩
  · rw [stat, statOf_and_pendAny] at waits
    exact waits rfl
  · rw [holds.statPend] at timedOut
    exact absurd timedOut (by simp)

theorem Holds.of_spared (holds : Holds kind e m k i) (spared : Spared k k' i) :
    Holds kind e m k' i where
  mem := spared.mem
  place := spared.place.trans holds.place
  statPend := spared.tcb.statPend.trans holds.statPend
  dly := spared.tcb.dly.trans holds.dly
  msg := spared.tcb.msg.trans holds.msg
  stat := by
    obtain ⟨suspended, stat⟩ := holds.stat
    exact spared.tcb.stat none suspended stat

/-- A task that is in its own code has been handed nothing. -/
theorem Holds.ne_cur (holds : Holds kind e m k i) (user : k.pc k.OSTCBCur = .user) :
    i ≠ k.OSTCBCur := by
  rintro rfl
  have place := holds.place
  rw [user] at place
  exact absurd place (by simp [Pc.waitsFor])

/-- A task in a pend call that is behind its call of `OS_Sched`. -/
theorem Pc.eq_pend {c : Pc} (inPend : c.inPend = true) (place : c.waitsFor = some (kind, e)) :
    c = .pend kind e := by
  cases c with
  | user | sched | pendSched => exact absurd inPend (by simp [Pc.inPend])
  | pend kind' e' =>
      obtain ⟨rfl, rfl⟩ : kind' = kind ∧ e' = e := by simpa [Pc.waitsFor] using place
      rfl

/-- The task comes out of its pend call with the message. -/
def Kernel.Ends (i : TcbId) (kind : EventKind) (e : EventId) (m : ℕ) (k : Kernel) (a : Act) :
    Prop :=
  a = .pendEnd ∧ k.Enabled a ∧ k.OSTCBCur = i ∧ k.pc i = .pend kind e ∧
    (k.osPendEnd kind e).2 = (m, .none)

/-- One step of a task that has been handed a message: it comes out of the call with it, or
still has it. -/
theorem Holds.step (holds : Holds kind e m k i) (c : Consistent k) {a : Act}
    (undeleted : k.Undeleted i a) : k.Ends i kind e m a ∨ Holds kind e m (k.step a) i := by
  by_cases ends : a = .pendEnd ∧ k.Enabled a ∧ i = k.OSTCBCur
  · left
    obtain ⟨rfl, enabled, rfl⟩ := ends
    refine ⟨rfl, enabled, rfl, Pc.eq_pend enabled.2 holds.place, ?_⟩
    have ok : k.tcbCur.OSTCBStatPend = .pendOk := holds.statPend
    simp only [Kernel.osPendEnd, ok]
    exact Prod.ext holds.msg rfl
  -- nothing else is about a task that has left the wait list
  · refine Or.inr (holds.of_spared (c.spared_step holds.mem holds.free
      (fun _ user => holds.ne_cur user) undeleted (Or.inr holds.dly) ?_ fun _ => holds.dly))
    exact fun pendEnd enabled same => ends ⟨pendEnd, enabled, same⟩

/-- **A message that has been handed over arrives**: along every run in which the task is
not deleted, it has the message still, or there was a step at which it came out of its pend
call with it. -/
theorem Holds.run {acts : List Act} (holds : Holds kind e m k i) (c : Consistent k)
    (guarded : Guarded (fun k a => k.Disciplined a ∧ k.Undeleted i a) Kernel.step k acts) :
    Holds kind e m (run Kernel.step k acts) i ∨
      ∃ pre a post, acts = pre ++ a :: post ∧ (run Kernel.step k pre).Ends i kind e m a := by
  induction acts generalizing k with
  | nil => exact Or.inl holds
  | cons a acts ih =>
      obtain ⟨⟨disciplined, undeleted⟩, later⟩ := guarded
      rcases holds.step c undeleted with ends | holds'
      · exact Or.inr ⟨[], a, acts, rfl, ends⟩
      · rcases ih holds' (c.step disciplined).1 later with still | ⟨pre, b, post, split, ends⟩
        · exact Or.inl still
        · exact Or.inr ⟨a :: pre, b, post, by rw [split, List.cons_append], ends⟩

/-- The task that a post has woken has been handed the message. -/
theorem Sound.holds_osEventTaskRdy (s : Sound k) (type : (k.OSEventTbl e).OSEventType = some kind)
    (waiting : (k.waitSet e).Nonempty) (m : ℕ) :
    Holds kind e m (k.osEventTaskRdy e m kind.osStat .pendOk) (k.firstWaiter e) ∧
      (((k.osEventTaskRdy e m kind.osStat .pendOk).OSTCBTbl (k.firstWaiter e)).Runnable ↔
        (k.OSTCBTbl (k.firstWaiter e)).OSTCBStat &&& osStatSuspend = osStatRdy) ∧
      ∀ j, j ≠ k.firstWaiter e →
        (k.osEventTaskRdy e m kind.osStat .pendOk).OSTCBTbl j = k.OSTCBTbl j := by
  obtain ⟨least, here, registered⟩ := s.firstWaiter waiting
  obtain ⟨mem, prio, -⟩ := s.slot _ _ here
  obtain ⟨kind', place, type'⟩ := s.typed _ mem e registered
  obtain rfl : kind' = kind := by rwa [type, Option.some.injEq, eq_comm] at type'
  have phase := s.phase _ mem
  rw [place] at phase
  obtain ⟨-, suspended, stat⟩ := phase
  generalize first : k.firstWaiter e = i at *
  have eq := osEventTaskRdy_eq k e m kind'.osStat .pendOk first rfl
  have block : (k.osEventTaskRdy e m kind'.osStat .pendOk).OSTCBTbl =
      Function.update k.OSTCBTbl i ((k.OSTCBTbl i).woken m kind'.osStat .pendOk) := by rw [eq]
  have cleared : (k.OSTCBTbl i).OSTCBStat &&& ~~~kind'.osStat = statOf none suspended := by
    rcases stat with ⟨stat, -⟩ | ⟨stat, -⟩
    · rw [stat, statOf_clear_kind]
    · rw [stat, statOf_none_clear_kind]
  have bit : (k.OSTCBTbl i).OSTCBStat &&& osStatSuspend = osStatRdy ↔ suspended = false := by
    rcases stat with ⟨stat, -⟩ | ⟨stat, -⟩ <;> rw [stat, statOf_and_suspend]
  have here' : (k.osEventTaskRdy e m kind'.osStat .pendOk).OSTCBTbl i =
      (k.OSTCBTbl i).woken m kind'.osStat .pendOk := by rw [block, Function.update_self]
  have list : i ∈ (k.osEventTaskRdy e m kind'.osStat .pendOk).OSTCBList := by
    rw [eq]
    exact mem
  have pc : ((k.osEventTaskRdy e m kind'.osStat .pendOk).pc i).waitsFor = some (kind', e) := by
    rw [eq]
    exact place
  refine ⟨⟨list, pc, ?_, ?_, ?_, suspended, ?_⟩, ?_, fun j other => ?_⟩
  · rw [here', Tcb.woken]
  · rw [here', Tcb.woken]
  · rw [here', Tcb.woken]
  · rw [here']
    exact cleared
  · rw [here', bit, Tcb.Runnable, and_iff_left (by rfl), Tcb.woken]
    simp only [cleared, statOf_eq_rdy, true_and]
  · rw [block, Function.update_of_ne other]

theorem waitSet_toSched (k : Kernel) (c : Pc) (e : EventId) :
    (k.toSched c).waitSet e = k.waitSet e := by
  unfold Kernel.toSched
  split_ifs <;> rfl

/-- A post wakes the first task of the wait list and no other. -/
theorem Sound.post_wakes (s : Sound k) {c : Call} (enabled : k.InCall)
    (posts : c.posting = some (kind, e, m)) (type : (k.OSEventTbl e).OSEventType = some kind)
    (waiting : (k.waitSet e).Nonempty) :
    IsLeast (k.waitSet e) (k.OSEventTbl e).wait.highest ∧
      k.OSTCBPrioTbl (k.OSEventTbl e).wait.highest = .tcb (k.firstWaiter e) ∧
      (k.exec c).waitSet e = k.waitSet e \ {(k.OSEventTbl e).wait.highest} ∧
      Holds kind e m (k.exec c) (k.firstWaiter e) ∧
      (((k.exec c).OSTCBTbl (k.firstWaiter e)).Runnable ↔
        (k.OSTCBTbl (k.firstWaiter e)).OSTCBStat &&& osStatSuspend = osStatRdy) ∧
      ∀ j, j ≠ k.firstWaiter e → (k.exec c).OSTCBTbl j = k.OSTCBTbl j := by
  have group : (k.OSEventTbl e).wait.grp ≠ 0 :=
    fun zero => waiting.ne_empty (s.grp_eq_zero_iff.mp zero)
  have ends : PendStat.pendOk ≠ .pendTo := by simp
  obtain ⟨least, here, -⟩ := s.firstWaiter waiting
  obtain ⟨w, less⟩ := s.wakes_osEventTaskRdy waiting m type ends
  obtain ⟨holds, runs, others⟩ := s.holds_osEventTaskRdy type waiting m
  refine ⟨least, here, ?_⟩
  rcases exec_posting posts type group with eq | eq
  · rw [eq]
    exact ⟨less, holds, runs, others⟩
  · have away : (k.osEventTaskRdy e m kind.osStat .pendOk).OSIntNesting = 0 →
        k.firstWaiter e ≠ (k.osEventTaskRdy e m kind.osStat .pendOk).OSTCBCur := by
      rw [w.same.int, w.same.cur]
      intro top
      obtain ⟨-, user, -⟩ := enabled.task (by omega)
      have notCur := holds.ne_cur
      rw [w.pc, w.same.cur] at notCur
      exact notCur user
    rw [eq, waitSet_toSched, tcb_toSched]
    exact ⟨less, holds.of_spared ((Spared.refl holds.mem).toSched (.refl _) away), runs, others⟩

/-- The timer task waits for a tick, and the task of priority 4 for a message. -/
def mailboxWait : List Act :=
  [.pendSV, .call (.semPend (some 1) 0), .sched, .pendSV, .call (.mboxCreate 0),
    .call (.mboxPend (some 2) 5), .sched, .pendSV]

section Run

variable (prios : List ℕ) (acts : List Act)
  (disciplined : Guarded Kernel.Disciplined Kernel.step (Kernel.boot prios) acts)

include disciplined

end Run

end Ucos

end CannonCar
