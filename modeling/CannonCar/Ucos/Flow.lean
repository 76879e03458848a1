import CannonCar.Ucos.Deliveries

/-!
# What passes through an event

A semaphore's units, the message of a mailbox and the messages of a queue are what the
event holds; posts put something behind them and pend calls take something from the front.
A post to an event that tasks wait for gives its message away at once, and as nobody waits
for what is there, this does not overtake anything.  So what is given out is, in order,
what was there and what has been posted, but for what is still there.

The two sides are read off at different ends.  What is posted (`Kernel.posted`) is the
argument of a post that answers `OS_ERR_NONE`.  What is given out (`Kernel.handed`) is read
off at the receivers: the answer of a pend or accept call that finds something, and, for a
post, `OSTCBMsg` in the control blocks of the tasks that it takes off the wait list.  A kernel
that woke a task with nothing, with another message, or not at all would not balance.  What
such a task then gets out of its pend call is `posted_message_arrives`.  A broadcast counts
once if all tasks it wakes have the same message.

## What is load-bearing

**Units of a semaphore are messages too**, all alike, so that the law is one for three kinds of
event.

**In order.**  `Kernel.InOrder` leaves out what is meant to break the order or the account:
posts to the front, flushing, setting a count, deleting the event.  An event may be full; a
post that is refused is not among what has been posted.

**Conservation is a rule of `Foundation.Trajectory`** (`conserved_of_guarded`): a step takes some in
behind and gives some out in front.  What a step does is one lemma for each service, and that
nobody waits for what is there is what makes a hand-over such a step.
-/

namespace CannonCar

namespace Ucos

open TwoLevel Trajectory

variable {k k' : Kernel} {e : EventId} {kind : EventKind} {m : ℕ}

/-- What an event holds, the oldest first.  A unit of a semaphore is the message 0. -/
def Event.content (v : Event) : List ℕ :=
  match v.OSEventType with
  | some .sem => List.replicate v.OSEventCnt 0
  | some .mbox => if v.OSEventPtr = 0 then [] else [v.OSEventPtr]
  | some .q => v.pq.messages
  | none => []

namespace Kernel

/-- What a service posts to the event: its message, if it answers `OS_ERR_NONE`. -/
def accepts (e : EventId) (k : Kernel) : Call → List ℕ
  | .semPost p => if p = some e ∧ (k.osSemPost p).2 = .none then [0] else []
  | .mboxPost p m => if p = some e ∧ (osMboxPost p m k).2 = .none then [m] else []
  | .mboxPostOpt p m opt => if p = some e ∧ (k.osMboxPostOpt p m opt).2 = .none then [m] else []
  | .qPost p m => if p = some e ∧ (osQPost p m k).2 = .none then [m] else []
  | .qPostFront p m => if p = some e ∧ (osQPostFront p m k).2 = .none then [m] else []
  | .qPostOpt p m opt => if p = some e ∧ (k.osQPostOpt p m opt).2 = .none then [m] else []
  | _ => []

/-- The event that a service takes from. -/
def takesFrom : Call → Option EventId
  | .semPend p _ | .semAccept p | .mboxPend p _ | .mboxAccept p | .qPend p _ | .qAccept p => p
  | _ => none

/-- What an answer of `OSSemAccept` stands for. -/
def unitOf : ℕ → Option ℕ
  | 0 => none
  | _ + 1 => some 0

/-- What an answer of `OSMboxAccept` stands for. -/
def msgOf : ℕ → Option ℕ
  | 0 => none
  | m + 1 => some (m + 1)

/-- What a service has taken, by its answer. -/
def got (k : Kernel) : Call → Option ℕ
  | .semPend p timeout =>
      match (k.osSemPend p timeout).2 with
      | some .none => some 0
      | _ => none
  | .semAccept p => unitOf (k.osSemAccept p).2
  | .mboxPend p timeout =>
      match (k.osMboxPend p timeout).2 with
      | some (m, .none) => some m
      | _ => none
  | .mboxAccept p => msgOf (k.osMboxAccept p).2
  | .qPend p timeout =>
      match (k.osQPend p timeout).2 with
      | some (m, .none) => some m
      | _ => none
  | .qAccept p =>
      match (k.osQAccept p).2 with
      | (m, .none) => some m
      | _ => none
  | _ => none

/-- What a service takes from the event for its caller. -/
def takes (e : EventId) (k : Kernel) (c : Call) : List ℕ :=
  if takesFrom c = some e then (k.got c).toList else []

/-- The event that a service posts to. -/
def postsTo : Call → Option EventId
  | .semPost p | .mboxPost p _ | .mboxPostOpt p _ _ | .qPost p _ | .qPostFront p _ |
    .qPostOpt p _ _ => p
  | _ => none

/-- The tasks that were registered with the event and are no longer. -/
def released (e : EventId) (k k' : Kernel) : List TcbId :=
  k.OSTCBList.filter fun i =>
    decide ((k.OSTCBTbl i).Registered e ∧ ¬ (k'.OSTCBTbl i).Registered e)

/-- What those tasks have in their control blocks.  A message that several of them have
counts once. -/
def received (e : EventId) (k k' : Kernel) : List ℕ :=
  ((released e k k').map fun i => (k'.OSTCBTbl i).OSTCBMsg).dedup

/-- What a service gives out: what it takes for its caller, and what the tasks have that its
post releases. -/
def hands (e : EventId) (k : Kernel) (c : Call) : List ℕ :=
  k.takes e c ++ if postsTo c = some e then received e k (k.exec c) else []

/-- What a step posts to the event; the clock tick signals the timer task's semaphore. -/
def posted (e : EventId) (k : Kernel) (a : Act) : List ℕ :=
  if k.Enabled a then
    match a with
    | .call c => k.accepts e c
    | .tick => k.accepts e (.semPost k.OSTmrSemSignal)
    | _ => []
  else []

/-- What a step gives out from the event. -/
def handed (e : EventId) (k : Kernel) (a : Act) : List ℕ :=
  if k.Enabled a then
    match a with
    | .call c => k.hands e c
    | .tick => if k.OSTmrSemSignal = some e then received e k k.osTimeTick else []
    | _ => []
  else []

end Kernel

/-- The services that pass things through the event in order: it is not deleted, flushed or
set, and nothing is posted to its front. -/
def Call.InOrder (e : EventId) : Call → Prop
  | .semSet p _ | .semDel p _ | .mboxDel p _ | .qDel p _ | .qFlush p | .qPostFront p _ => p ≠ some e
  | .qPostOpt p _ opt => p = some e → opt.front = false
  | _ => True

instance (e : EventId) : DecidablePred (Call.InOrder e) := by
  intro c
  unfold Call.InOrder
  split <;> infer_instance

/-- The steps that pass things through the event in order. -/
def Act.InOrder (e : EventId) : Act → Prop
  | .call c => c.InOrder e
  | _ => True

instance (e : EventId) : DecidablePred (Act.InOrder e) := by
  intro a
  unfold Act.InOrder
  split <;> infer_instance

/-- The event keeps its kind, takes `ins` in and gives `outs` out. -/
structure Flows (e : EventId) (ins outs : List ℕ) (k k' : Kernel) : Prop where
  type : (k'.OSEventTbl e).OSEventType = (k.OSEventTbl e).OSEventType
  content : (k.OSEventTbl e).content ++ ins = outs ++ (k'.OSEventTbl e).content

/-- A step that changes the wait list of the event at most. -/
theorem flows_of_wait (same : k'.OSEventTbl e = { k.OSEventTbl e with
    wait := (k'.OSEventTbl e).wait }) : Flows e [] [] k k' := by
  constructor
  · rw [same]
  · rw [same, List.append_nil, List.nil_append]
    rfl

theorem flows_of_eq (same : k'.OSEventTbl e = k.OSEventTbl e) : Flows e [] [] k k' :=
  flows_of_wait (by rw [same])

theorem Flows.refl (e : EventId) (k : Kernel) : Flows e [] [] k k := flows_of_eq rfl

theorem event_toSched (k : Kernel) (c : Pc) : (k.toSched c).OSEventTbl = k.OSEventTbl := by
  unfold Kernel.toSched
  split_ifs <;> rfl

theorem Flows.toSched {ins outs : List ℕ} (flows : Flows e ins outs k k') (c : Pc) :
    Flows e ins outs k (k'.toSched c) :=
  ⟨by rw [event_toSched]; exact flows.type, by rw [event_toSched]; exact flows.content⟩

theorem SameEvents.flows (same : SameEvents k k') : Flows e [] [] k k' :=
  flows_of_wait (same.event e)

theorem flows_setEvent_of_ne {e' : EventId} (other : e' ≠ e) (v : Event) :
    Flows e [] [] k (k.setEvent e' v) :=
  flows_of_eq (Function.update_of_ne other.symm ..)

/-- A change of the event's own block. -/
theorem flows_setEvent {v : Event} {ins outs : List ℕ}
    (type : v.OSEventType = (k.OSEventTbl e).OSEventType)
    (content : (k.OSEventTbl e).content ++ ins = outs ++ v.content) :
    Flows e ins outs k (k.setEvent e v) := by
  have here : (k.setEvent e v).OSEventTbl e = v := Function.update_self ..
  exact ⟨by rw [here, type], by rw [here, content]⟩

/-- An event that tasks wait for holds nothing. -/
theorem Sound.content_eq_nil (s : Sound k) (group : (k.OSEventTbl e).wait.grp ≠ 0) :
    (k.OSEventTbl e).content = [] := by
  have nothing : ¬ (k.OSEventTbl e).Available :=
    fun offers => group (s.grp_eq_zero_iff.mpr (s.noLostWakeup e offers))
  rcases type : (k.OSEventTbl e).OSEventType with _ | _ | _ | _ <;>
    simp only [Event.Available, type, not_lt, Nat.le_zero, ne_eq, not_not] at nothing <;>
    simp only [Event.content, type]
  · rw [if_pos nothing]
  · exact OSQ.messages_eq_nil_iff.mpr nothing
  · rw [nothing, List.replicate_zero]

/-! ### Posts -/

/-- A task that is left alone receives nothing. -/
theorem received_of_tcb (same : k'.OSTCBTbl = k.OSTCBTbl) : Kernel.received e k k' = [] := by
  have none : Kernel.released e k k' = [] := by
    refine List.filter_eq_nil_iff.mpr fun i _ => ?_
    rw [same, decide_eq_true_eq]
    exact and_not_self
  rw [Kernel.received, none]
  rfl

/-- Whoever is released has the message, and somebody is. -/
theorem received_eq_singleton (woken : ∀ i, k'.OSTCBTbl i = k.OSTCBTbl i ∨
      (k'.OSTCBTbl i).OSTCBMsg = m) {i : TcbId} (mem : i ∈ k.OSTCBList)
    (registered : (k.OSTCBTbl i).Registered e) (free : ¬ (k'.OSTCBTbl i).Registered e) :
    Kernel.received e k k' = [m] := by
  have some_ : i ∈ Kernel.released e k k' :=
    List.mem_filter.mpr ⟨mem, decide_eq_true ⟨registered, free⟩⟩
  have all : ∀ i ∈ Kernel.released e k k', (k'.OSTCBTbl i).OSTCBMsg = m := by
    intro i mem
    obtain ⟨was, gone⟩ := of_decide_eq_true (List.mem_filter.mp mem).2
    refine (woken i).resolve_left fun same => gone ?_
    rwa [same]
  rw [Kernel.received, List.map_congr_left all, List.map_const']
  exact List.replicate_dedup (List.length_pos_of_mem some_).ne'

/-- What a post leaves: it is refused, gives its message to tasks that wait, or leaves it in
the event. -/
inductive Posts (kind : EventKind) (p : Option EventId) (m : ℕ) (k k' : Kernel) (err : Err) : Prop
  | refused (no : err ≠ .none) (same : k' = k)
  | woke (e : EventId) (here : p = some e) (yes : err = .none)
      (group : (k.OSEventTbl e).wait.grp ≠ 0)
      (same : ∀ e', k'.OSEventTbl e' = { k.OSEventTbl e' with wait := (k'.OSEventTbl e').wait })
      (received : Kernel.received e k k' = [m])
  | stored (e : EventId) (here : p = some e) (yes : err = .none)
      (group : (k.OSEventTbl e).wait.grp = 0) (v : Event) (same : k' = k.setEvent e v)
      (type : v.OSEventType = (k.OSEventTbl e).OSEventType)
      (content : v.content = (k.OSEventTbl e).content ++ [m])

/-- A post passes through what it has been given. -/
theorem Posts.flows {p : Option EventId} {err : Err} (posts : Posts kind p m k k' err)
    (s : Sound k) :
    Flows e (if p = some e ∧ err = .none then [m] else [])
      (if p = some e then Kernel.received e k k' else []) k k' := by
  cases posts with
  | refused no same =>
      subst same
      rw [if_neg fun yes => no yes.2, received_of_tcb rfl, ite_self]
      exact .refl e k'
  | woke e' here yes group same received =>
      by_cases block : e' = e
      · subst block
        rw [if_pos ⟨here, yes⟩, if_pos here, received]
        obtain ⟨type, content⟩ := flows_of_wait (same e')
        refine ⟨type, ?_⟩
        rw [List.append_nil, List.nil_append] at content
        rw [← content, s.content_eq_nil group, List.nil_append, List.append_nil]
      · have other : p ≠ some e := fun there => block (Option.some.inj (here.symm.trans there))
        rw [if_neg fun yes => other yes.1, if_neg other]
        exact flows_of_wait (same e)
  | stored e' here yes group v same type content =>
      subst same
      have nobody : Kernel.received e k (k.setEvent e' v) = [] := received_of_tcb rfl
      rw [nobody, ite_self]
      by_cases block : e' = e
      · subst block
        rw [if_pos ⟨here, yes⟩]
        exact flows_setEvent type content.symm
      · have other : p ≠ some e := fun there => block (Option.some.inj (here.symm.trans there))
        rw [if_neg fun yes => other yes.1]
        exact flows_setEvent_of_ne block v

/-- Of the loop over a wait list, too: who is not left alone has the message. -/
theorem Sound.woken_osEventTaskRdyAll {n : ℕ} (s : Sound k)
    (type : (k.OSEventTbl e).OSEventType = some kind) (i : TcbId) :
    (k.osEventTaskRdyAll e m kind.osStat .pendOk n).OSTCBTbl i = k.OSTCBTbl i ∨
      ((k.osEventTaskRdyAll e m kind.osStat .pendOk n).OSTCBTbl i).OSTCBMsg = m := by
  induction n generalizing k with
  | zero => exact Or.inl rfl
  | succ n ih =>
      rw [Kernel.osEventTaskRdyAll]
      split_ifs with group
      · have waiting := s.nonempty_of_grp group
        have wakes :=
          (s.wakes_osEventTaskRdy waiting m type (by simp : PendStat.pendOk ≠ .pendTo)).1
        obtain ⟨holds, -, others⟩ := s.holds_osEventTaskRdy type waiting m
        have type' := (sameEvents_osEventTaskRdy k e m kind.osStat .pendOk).type e
        rcases ih wakes.sound (type'.trans type) with same | has
        · rw [same]
          by_cases first : i = k.firstWaiter e
          · rw [first]
            exact Or.inr holds.msg
          · exact Or.inl (others i first)
        · exact Or.inr has
      · exact Or.inl rfl

/-- A post to tasks that wait is received. -/
theorem Sound.received_of_woken (s : Sound k) (group : (k.OSEventTbl e).wait.grp ≠ 0)
    (woken : ∀ i, k'.OSTCBTbl i = k.OSTCBTbl i ∨ (k'.OSTCBTbl i).OSTCBMsg = m)
    (free : ¬ (k'.OSTCBTbl (k.firstWaiter e)).Registered e) : Kernel.received e k k' = [m] := by
  obtain ⟨-, here, registered⟩ := s.firstWaiter (s.nonempty_of_grp group)
  exact received_eq_singleton woken (s.slot _ _ here).1 registered free

theorem Sound.received_osEventTaskRdy (s : Sound k)
    (type : (k.OSEventTbl e).OSEventType = some kind) (group : (k.OSEventTbl e).wait.grp ≠ 0) :
    Kernel.received e k (k.osEventTaskRdy e m kind.osStat .pendOk) = [m] := by
  obtain ⟨holds, -, others⟩ := s.holds_osEventTaskRdy type (s.nonempty_of_grp group) m
  refine s.received_of_woken group (fun i => ?_) (holds.free e)
  by_cases first : i = k.firstWaiter e
  · rw [first]
    exact Or.inr holds.msg
  · exact Or.inl (others i first)

/-- A broadcast leaves nobody on the wait list. -/
theorem Sound.received_osEventTaskRdyAll (s : Sound k)
    (type : (k.OSEventTbl e).OSEventType = some kind) (group : (k.OSEventTbl e).wait.grp ≠ 0) :
    Kernel.received e k (k.osEventTaskRdyAll e m kind.osStat .pendOk 64) = [m] := by
  obtain ⟨wakes, empty⟩ := s.wakes_osEventTaskRdyAll m type (by simp : PendStat.pendOk ≠ .pendTo)
    fun p _ => Nat.le_add_left 64 p
  refine s.received_of_woken group (s.woken_osEventTaskRdyAll type) fun registered => ?_
  obtain ⟨-, here, -⟩ := s.firstWaiter (s.nonempty_of_grp group)
  have still : (k.OSEventTbl e).wait.highest ∈
      (k.osEventTaskRdyAll e m kind.osStat .pendOk 64).waitSet e :=
    ⟨_, by rw [wakes.same.prioTbl, here], registered⟩
  exact Set.notMem_empty _ (empty ▸ still)

theorem received_toSched (k k' : Kernel) (c : Pc) :
    Kernel.received e k (k'.toSched c) = Kernel.received e k k' := by
  unfold Kernel.received Kernel.released
  rw [tcb_toSched]

theorem Sound.received_osPostWaiting (s : Sound k)
    (type : (k.OSEventTbl e).OSEventType = some kind) (group : (k.OSEventTbl e).wait.grp ≠ 0)
    (opt : Kernel.PostOpt) : Kernel.received e k (k.osPostWaiting kind e m opt) = [m] := by
  unfold Kernel.osPostWaiting
  split_ifs
  · exact s.received_osEventTaskRdyAll type group
  · rw [received_toSched]
    exact s.received_osEventTaskRdyAll type group
  · exact s.received_osEventTaskRdy type group
  · rw [received_toSched]
    exact s.received_osEventTaskRdy type group

theorem event_osPostWaiting (k : Kernel) (kind : EventKind) (e : EventId) (m : ℕ)
    (opt : Kernel.PostOpt) (e' : EventId) : (k.osPostWaiting kind e m opt).OSEventTbl e' =
      { k.OSEventTbl e' with wait := ((k.osPostWaiting kind e m opt).OSEventTbl e').wait } := by
  have all := (sameEvents_osEventTaskRdyAll e m kind.osStat .pendOk 64 k).event e'
  have one := (sameEvents_osEventTaskRdy k e m kind.osStat .pendOk).event e'
  unfold Kernel.osPostWaiting
  split_ifs
  · exact all
  · rw [event_toSched]
    exact all
  · exact one
  · rw [event_toSched]
    exact one

theorem Sound.posts_osSemPost (s : Sound k) (p : Option EventId) :
    Posts .sem p 0 k (k.osSemPost p).1 (k.osSemPost p).2 := by
  unfold Kernel.osSemPost
  split
  · exact .refused (by simp) rfl
  next e =>
  simp only
  split_ifs with type group room
  · exact .refused (by simp) rfl
  · refine .woke e rfl rfl group (fun e' => ?_) ?_
    · rw [event_toSched]
      exact (sameEvents_osEventTaskRdy k e 0 _ .pendOk).event e'
    · rw [received_toSched]
      exact s.received_osEventTaskRdy (not_not.mp type) group
  · refine .stored e rfl rfl (not_not.mp group) _ rfl rfl ?_
    simp only [Event.content, not_not.mp type]
    exact List.replicate_succ'
  · exact .refused (by simp) rfl

theorem Sound.posts_osMboxPostOpt (s : Sound k) (p : Option EventId) (m : ℕ)
    (opt : Kernel.PostOpt) :
    Posts .mbox p m k (k.osMboxPostOpt p m opt).1 (k.osMboxPostOpt p m opt).2 := by
  unfold Kernel.osMboxPostOpt
  split
  · exact .refused (by simp) rfl
  next e =>
  simp only
  split_ifs with null type group full
  · exact .refused (by simp) rfl
  · exact .refused (by simp) rfl
  · exact .woke e rfl rfl group (event_osPostWaiting k .mbox e m opt)
      (s.received_osPostWaiting (not_not.mp type) group opt)
  · exact .refused (by simp) rfl
  · refine .stored e rfl rfl (not_not.mp group) _ rfl rfl ?_
    simp only [Event.content, not_not.mp type, if_pos (not_not.mp full), if_neg null,
      List.nil_append]

theorem Sound.posts_osQPostOpt (s : Sound k) (p : Option EventId) (m : ℕ) {opt : Kernel.PostOpt}
    (back : opt.front = false) :
    Posts .q p m k (k.osQPostOpt p m opt).1 (k.osQPostOpt p m opt).2 := by
  unfold Kernel.osQPostOpt
  split
  · exact .refused (by simp) rfl
  next e =>
  simp only
  split_ifs with type group full front
  · exact .refused (by simp) rfl
  · exact .woke e rfl rfl group (event_osPostWaiting k .q e m opt)
      (s.received_osPostWaiting (not_not.mp type) group opt)
  · exact .refused (by simp) rfl
  · exact absurd (back.symm.trans front) (by simp)
  · refine .stored e rfl rfl (not_not.mp group) _ rfl rfl ?_
    simp only [Event.content, not_not.mp type]
    exact (s.queue e).messages_post (not_le.mp full)

/-- A post to another event, in whatever order. -/
theorem flows_osQPostOpt_of_ne {p : Option EventId} (other : p ≠ some e) (m : ℕ)
    (opt : Kernel.PostOpt) : Flows e [] [] k (k.osQPostOpt p m opt).1 := by
  unfold Kernel.osQPostOpt
  split
  · exact .refl e k
  next e' =>
  have block : e' ≠ e := fun same => other (congrArg some same)
  simp only
  split_ifs
  · exact .refl e k
  · exact flows_of_wait (event_osPostWaiting k .q e' m opt e)
  · exact .refl e k
  · exact flows_setEvent_of_ne block _
  · exact flows_setEvent_of_ne block _

/-! ### Takes -/

/-- What a service that takes leaves: it has taken the first thing there is, or nothing. -/
inductive Takes (p : Option EventId) (k k' : Kernel) (got : Option ℕ) : Prop
  | nothing (no : got = none)
      (same : ∀ e, k'.OSEventTbl e = { k.OSEventTbl e with wait := (k'.OSEventTbl e).wait })
  | taken (e : EventId) (here : p = some e) (m : ℕ) (yes : got = some m) (v : Event)
      (same : k' = k.setEvent e v) (type : v.OSEventType = (k.OSEventTbl e).OSEventType)
      (content : (k.OSEventTbl e).content = m :: v.content)

theorem Takes.refl (p : Option EventId) (k : Kernel) : Takes p k k none := .nothing rfl fun _ => rfl

theorem Takes.flows {p : Option EventId} {got : Option ℕ} (takes : Takes p k k' got) :
    Flows e [] (if p = some e then got.toList else []) k k' := by
  cases takes with
  | nothing no same =>
      subst no
      rw [Option.toList_none, ite_self]
      exact flows_of_wait (same e)
  | taken e' here m yes v same type content =>
      subst same yes
      by_cases block : e' = e
      · subst block
        rw [if_pos here]
        exact flows_setEvent type ((List.append_nil _).trans content)
      · rw [if_neg fun there => block (Option.some.inj (here.symm.trans there))]
        exact flows_setEvent_of_ne block v

/-- The first part of a pend call changes a wait list. -/
theorem event_osPendBegin (k : Kernel) (kind : EventKind) (e : EventId) (timeout : ℕ)
    (e' : EventId) : (k.osPendBegin kind e timeout).OSEventTbl e' = { k.OSEventTbl e' with
      wait := ((k.osPendBegin kind e timeout).OSEventTbl e').wait } := by
  rw [osPendBegin_eq k kind e timeout rfl]
  by_cases same : e' = e
  · subst same
    simp
  · simp [Function.update_of_ne same]

theorem takes_osSemPend (k : Kernel) (p : Option EventId) (timeout : ℕ) :
    Takes p k (k.osSemPend p timeout).1 (k.got (.semPend p timeout)) := by
  unfold Kernel.got Kernel.osSemPend
  cases p with
  | none => exact .refl _ k
  | some e =>
      simp only
      split_ifs with type nested locked count
      · exact .refl _ k
      · exact .refl _ k
      · exact .refl _ k
      · refine .taken e rfl 0 rfl _ rfl rfl ?_
        simp only [Event.content, not_not.mp type]
        rw [← List.replicate_succ, Nat.sub_add_cancel count]
      · exact .nothing rfl (event_osPendBegin k .sem e timeout)

theorem takes_osSemAccept (k : Kernel) (p : Option EventId) :
    Takes p k (k.osSemAccept p).1 (k.got (.semAccept p)) := by
  unfold Kernel.got Kernel.osSemAccept
  cases p with
  | none => exact .refl _ k
  | some e =>
      simp only
      split_ifs with type count
      · exact .refl _ k
      · have one : Kernel.unitOf (k.OSEventTbl e).OSEventCnt = some 0 := by
          rw [← Nat.sub_add_cancel count]
          rfl
        refine .taken e rfl 0 one _ rfl rfl ?_
        simp only [Event.content, not_not.mp type]
        rw [← List.replicate_succ, Nat.sub_add_cancel count]
      · rw [Nat.eq_zero_of_not_pos count]
        exact .refl _ k

theorem takes_osMboxPend (k : Kernel) (p : Option EventId) (timeout : ℕ) :
    Takes p k (k.osMboxPend p timeout).1 (k.got (.mboxPend p timeout)) := by
  unfold Kernel.got Kernel.osMboxPend
  cases p with
  | none => exact .refl _ k
  | some e =>
      simp only
      split_ifs with type nested locked full
      · exact .refl _ k
      · exact .refl _ k
      · exact .refl _ k
      · refine .taken e rfl _ rfl _ rfl rfl ?_
        simp only [Event.content, not_not.mp type, if_true, if_neg full]
      · exact .nothing rfl (event_osPendBegin k .mbox e timeout)

theorem takes_osMboxAccept (k : Kernel) (p : Option EventId) :
    Takes p k (k.osMboxAccept p).1 (k.got (.mboxAccept p)) := by
  unfold Kernel.got Kernel.osMboxAccept
  cases p with
  | none => exact .refl _ k
  | some e =>
      simp only
      split_ifs with type
      · exact .refl _ k
      · rcases msg : (k.OSEventTbl e).OSEventPtr with _ | m
        · refine .nothing rfl fun e' => ?_
          by_cases same : e' = e
          · subst same
            simp only [Kernel.setEvent, Function.update_self, ← msg]
          · simp only [Kernel.setEvent, Function.update_of_ne same]
        · refine .taken e rfl (m + 1) rfl _ rfl rfl ?_
          simp only [Event.content, not_not.mp type, if_true, msg, Nat.succ_ne_zero, if_false]

theorem Sound.takes_osQPend (s : Sound k) (p : Option EventId) (timeout : ℕ) :
    Takes p k (k.osQPend p timeout).1 (k.got (.qPend p timeout)) := by
  unfold Kernel.got Kernel.osQPend
  cases p with
  | none => exact .refl _ k
  | some e =>
      simp only
      split_ifs with type nested locked count
      · exact .refl _ k
      · exact .refl _ k
      · exact .refl _ k
      · refine .taken e rfl _ rfl _ rfl rfl ?_
        simp only [Event.content, not_not.mp type]
        exact (s.queue e).messages_get count
      · exact .nothing rfl (event_osPendBegin k .q e timeout)

theorem Sound.takes_osQAccept (s : Sound k) (p : Option EventId) :
    Takes p k (k.osQAccept p).1 (k.got (.qAccept p)) := by
  unfold Kernel.got Kernel.osQAccept
  cases p with
  | none => exact .refl _ k
  | some e =>
      simp only
      split_ifs with type count
      · exact .refl _ k
      · refine .taken e rfl _ rfl _ rfl rfl ?_
        simp only [Event.content, not_not.mp type]
        exact (s.queue e).messages_get count
      · exact .refl _ k

/-! ### The other services -/

/-- A service that writes into another block. -/
theorem flows_osSemSet_of_ne {p : Option EventId} (other : p ≠ some e) (cnt : ℕ) :
    Flows e [] [] k (k.osSemSet p cnt).1 := by
  unfold Kernel.osSemSet
  split
  · exact .refl e k
  next e' =>
  have block : e' ≠ e := fun same => other (congrArg some same)
  simp only
  split_ifs
  · exact .refl e k
  · exact flows_setEvent_of_ne block _
  · exact flows_setEvent_of_ne block _
  · exact .refl e k

theorem flows_osQFlush_of_ne {p : Option EventId} (other : p ≠ some e) :
    Flows e [] [] k (k.osQFlush p).1 := by
  unfold Kernel.osQFlush
  split
  · exact .refl e k
  next e' =>
  simp only
  split_ifs
  · exact .refl e k
  · exact flows_setEvent_of_ne (fun same => other (congrArg some same)) _

/-- A block in use is not given out again. -/
theorem Sound.flows_osEventCreate (s : Sound k) (used : (k.OSEventTbl e).OSEventType = some kind)
    (v : Event) : Flows e [] [] k (k.osEventCreate v).1 := by
  unfold Kernel.osEventCreate
  split
  · exact .refl e k
  · next e' free list =>
    have other : e ≠ e' := by
      rintro rfl
      have unused := s.unused e (by rw [list]; exact List.mem_cons_self)
      rw [used] at unused
      exact absurd unused (by simp)
    exact flows_of_eq (Function.update_of_ne other ..)

theorem flows_osPendAbort (k : Kernel) (kind : EventKind) (p : Option EventId) (opt : ℕ) :
    Flows e [] [] k (k.osPendAbort kind p opt).1 := by
  unfold Kernel.osPendAbort
  split
  · exact .refl e k
  next e' =>
  simp only
  split_ifs
  · exact .refl e k
  · exact (sameEvents_osEventTaskRdyAll e' 0 kind.osStat .pendAbort 64 k).flows.toSched .sched
  · exact (sameEvents_osEventTaskRdy k e' 0 kind.osStat .pendAbort).flows.toSched .sched
  · exact .refl e k

theorem event_osEventFree_of_ne {e' : EventId} (other : e' ≠ e) (k : Kernel) (kind : EventKind) :
    (k.osEventFree kind e').OSEventTbl e = k.OSEventTbl e := by
  unfold Kernel.osEventFree
  split_ifs <;> exact Function.update_of_ne other.symm ..

theorem flows_osEventDel_of_ne {p : Option EventId} (other : p ≠ some e) (kind : EventKind)
    (opt : ℕ) : Flows e [] [] k (k.osEventDel kind p opt).1 := by
  unfold Kernel.osEventDel
  split
  · exact .refl e k
  next e' =>
  have block : e' ≠ e := fun same => other (congrArg some same)
  have always : Flows e [] [] k
      ((k.osEventTaskRdyAll e' 0 kind.osStat .pendOk 64).osEventFree kind e') := by
    refine flows_of_wait ?_
    rw [event_osEventFree_of_ne block]
    exact (sameEvents_osEventTaskRdyAll e' 0 kind.osStat .pendOk 64 k).event e
  simp only
  split_ifs
  · exact .refl e k
  · exact .refl e k
  · exact flows_of_eq (event_osEventFree_of_ne block k kind)
  · exact .refl e k
  · exact always.toSched .sched
  · exact always
  · exact .refl e k

/-- The services on tasks leave the events alone. -/
theorem Changes.event {j : TcbId} {t : Tcb} (changes : Changes j t k k') :
    k'.OSEventTbl = k.OSEventTbl := by
  obtain ⟨w, writes, rfl | rfl⟩ := changes
  · exact writes.event
  · rw [event_toSched, writes.event]

theorem event_osTaskSuspend (k : Kernel) (prio : ℕ) :
    (k.osTaskSuspend prio).1.OSEventTbl = k.OSEventTbl := by
  rcases osTaskSuspend_cases k prio with same | ⟨j, changes⟩
  · rw [same]
  · exact changes.event

theorem event_osTaskResume (k : Kernel) (prio : ℕ) :
    (k.osTaskResume prio).1.OSEventTbl = k.OSEventTbl := by
  rcases osTaskResume_cases k prio with same | ⟨j, changes⟩
  · rw [same]
  · exact changes.event

theorem event_osTimeDly (k : Kernel) (ticks : ℕ) :
    (k.osTimeDly ticks).OSEventTbl = k.OSEventTbl := by
  rcases osTimeDly_cases k ticks with same | ⟨-, changes⟩
  · rw [same]
  · exact changes.event

theorem event_osTimeDlyHMSM (k : Kernel) (hours minutes seconds ms : ℕ) :
    (k.osTimeDlyHMSM hours minutes seconds ms).1.OSEventTbl = k.OSEventTbl := by
  rcases osTimeDlyHMSM_cases k hours minutes seconds ms with same | same
  · rw [same]
  · rw [same, event_osTimeDly]

theorem event_osTimeDlyResume (k : Kernel) (prio : ℕ) :
    (k.osTimeDlyResume prio).1.OSEventTbl = k.OSEventTbl := by
  rcases osTimeDlyResume_cases k prio with same | ⟨j, -, -, changes⟩
  · rw [same]
  · exact changes.event

theorem event_dlyExpired (k : Kernel) (i : TcbId) : (k.dlyExpired i).OSEventTbl = k.OSEventTbl := by
  rw [dlyExpired_eq k i rfl]

theorem event_osTaskCreate (k : Kernel) (prio : ℕ) :
    (k.osTaskCreate prio).1.OSEventTbl = k.OSEventTbl := by
  rcases osTaskCreate_cases k prio with same | ⟨i, free, range, top, empty, list⟩
  · rw [same]
  · rw [osTaskCreate_eq range top empty list]
    split_ifs
    · rw [event_toSched]
      rfl
    · rfl

theorem Sound.flows_osTaskDel (s : Sound k) (prio : ℕ) :
    Flows e [] [] k (k.osTaskDel prio).1 := by
  rcases s.osTaskDel_cases prio with same | ⟨i, -, -, -, deleted⟩
  · rw [same]
    exact .refl e k
  · have flows : Flows e [] [] k (k.deleted (k.prioOf prio) i) :=
      flows_of_wait (by rw [deleted_event])
    rw [deleted]
    split_ifs
    · exact flows.toSched .sched
    · exact flows

theorem Sound.flows_osQCreate (s : Sound k) (used : (k.OSEventTbl e).OSEventType = some kind)
    (start : ℕ → ℕ) (size : ℕ) : Flows e [] [] k (k.osQCreate start size).1 := by
  have block := s.flows_osEventCreate used ⟨some .q, 0, 0, Table.empty, .create start size⟩
  unfold Kernel.osQCreate
  split_ifs
  · exact .refl e k
  · exact .refl e k
  · split
    · next eq =>
      rw [eq] at block
      exact ⟨block.type, block.content⟩
    · next eq =>
      rw [eq] at block
      exact block

theorem event_osSchedLock (k : Kernel) : k.osSchedLock.OSEventTbl = k.OSEventTbl := by
  unfold Kernel.osSchedLock
  split_ifs <;> rfl

theorem event_osSchedUnlock (k : Kernel) : k.osSchedUnlock.OSEventTbl = k.OSEventTbl := by
  unfold Kernel.osSchedUnlock
  split_ifs
  · simp only
    split_ifs
    · rw [event_toSched]
    · rfl
  · rfl

/-! ### All services -/

section Calls

variable {c : Call} {p : Option EventId}

/-- A service that posts. -/
theorem flows_of_posts {err : Err} (posts : Posts kind p m k (k.exec c) err) (s : Sound k)
    (accepts : k.accepts e c = if p = some e ∧ err = .none then [m] else [])
    (takes : k.takes e c = []) (postsTo : Kernel.postsTo c = p) :
    Flows e (k.accepts e c) (k.hands e c) k (k.exec c) := by
  rw [Kernel.hands, takes, accepts, List.nil_append, postsTo]
  exact posts.flows s

/-- A service that takes. -/
theorem flows_of_takes (takes : Takes p k (k.exec c) (k.got c)) (takesFrom : Kernel.takesFrom c = p)
    (accepts : k.accepts e c = []) (postsTo : Kernel.postsTo c = none) :
    Flows e (k.accepts e c) (k.hands e c) k (k.exec c) := by
  rw [Kernel.hands, accepts, postsTo, if_neg (Option.some_ne_none e).symm, List.append_nil,
    Kernel.takes, takesFrom]
  exact takes.flows

/-- A service that does neither to the event. -/
theorem flows_of_neither (flows : Flows e [] [] k (k.exec c)) (accepts : k.accepts e c = [])
    (takes : k.takes e c = []) (postsTo : Kernel.postsTo c ≠ some e) :
    Flows e (k.accepts e c) (k.hands e c) k (k.exec c) := by
  rw [Kernel.hands, accepts, takes, if_neg postsTo, List.append_nil]
  exact flows

/-- A service that leaves the events alone. -/
theorem flows_of_events (events : (k.exec c).OSEventTbl = k.OSEventTbl)
    (accepts : k.accepts e c = []) (takes : k.takes e c = [])
    (postsTo : Kernel.postsTo c ≠ some e) :
    Flows e (k.accepts e c) (k.hands e c) k (k.exec c) :=
  flows_of_neither (flows_of_eq (by rw [events])) accepts takes postsTo

end Calls

/-- **Every service** passes through the event what it posts and what it takes. -/
theorem Sound.flows_exec (s : Sound k) (used : (k.OSEventTbl e).OSEventType = some kind) (c : Call)
    (inOrder : c.InOrder e) : Flows e (k.accepts e c) (k.hands e c) k (k.exec c) := by
  have none_ne : none ≠ some e := (Option.some_ne_none e).symm
  have created : ∀ v, Flows e [] [] k (if 0 < k.OSIntNesting then (k, none)
      else k.osEventCreate v).1 := by
    intro v
    split_ifs
    · exact .refl e k
    · exact s.flows_osEventCreate used v
  cases c with
  | semCreate cnt => exact flows_of_neither (created _) rfl rfl none_ne
  | semPend p timeout => exact flows_of_takes (takes_osSemPend k p timeout) rfl rfl rfl
  | semPost p => exact flows_of_posts (s.posts_osSemPost p) s rfl rfl rfl
  | semAccept p => exact flows_of_takes (takes_osSemAccept k p) rfl rfl rfl
  | semSet p cnt => exact flows_of_neither (flows_osSemSet_of_ne inOrder cnt) rfl rfl none_ne
  | semPendAbort p opt => exact flows_of_neither (flows_osPendAbort k .sem p opt) rfl rfl none_ne
  | semDel p opt => exact flows_of_neither (flows_osEventDel_of_ne inOrder .sem opt) rfl rfl none_ne
  | mboxCreate m => exact flows_of_neither (created _) rfl rfl none_ne
  | mboxPend p timeout => exact flows_of_takes (takes_osMboxPend k p timeout) rfl rfl rfl
  | mboxPost p m => exact flows_of_posts (s.posts_osMboxPostOpt p m _) s rfl rfl rfl
  | mboxPostOpt p m opt => exact flows_of_posts (s.posts_osMboxPostOpt p m opt) s rfl rfl rfl
  | mboxAccept p => exact flows_of_takes (takes_osMboxAccept k p) rfl rfl rfl
  | mboxPendAbort p opt => exact flows_of_neither (flows_osPendAbort k .mbox p opt) rfl rfl none_ne
  | mboxDel p opt =>
      exact flows_of_neither (flows_osEventDel_of_ne inOrder .mbox opt) rfl rfl none_ne
  | qCreate start size => exact flows_of_neither (s.flows_osQCreate used start size) rfl rfl none_ne
  | qPend p timeout => exact flows_of_takes (s.takes_osQPend p timeout) rfl rfl rfl
  | qPost p m => exact flows_of_posts (s.posts_osQPostOpt p m rfl) s rfl rfl rfl
  | qPostFront p m =>
      have none : k.accepts e (.qPostFront p m) = [] := if_neg fun yes => inOrder yes.1
      exact flows_of_neither (flows_osQPostOpt_of_ne inOrder m _) none rfl inOrder
  | qPostOpt p m opt =>
      by_cases here : p = some e
      · exact flows_of_posts (s.posts_osQPostOpt p m (inOrder here)) s rfl rfl rfl
      · have none : k.accepts e (.qPostOpt p m opt) = [] := if_neg fun yes => here yes.1
        exact flows_of_neither (flows_osQPostOpt_of_ne here m opt) none rfl here
  | qAccept p => exact flows_of_takes (s.takes_osQAccept p) rfl rfl rfl
  | qFlush p => exact flows_of_neither (flows_osQFlush_of_ne inOrder) rfl rfl none_ne
  | qPendAbort p opt => exact flows_of_neither (flows_osPendAbort k .q p opt) rfl rfl none_ne
  | qDel p opt => exact flows_of_neither (flows_osEventDel_of_ne inOrder .q opt) rfl rfl none_ne
  | taskCreate prio => exact flows_of_events (event_osTaskCreate k prio) rfl rfl none_ne
  | taskDel prio => exact flows_of_neither (s.flows_osTaskDel prio) rfl rfl none_ne
  | taskSuspend prio => exact flows_of_events (event_osTaskSuspend k prio) rfl rfl none_ne
  | taskResume prio => exact flows_of_events (event_osTaskResume k prio) rfl rfl none_ne
  | timeDly ticks => exact flows_of_events (event_osTimeDly k ticks) rfl rfl none_ne
  | timeDlyHMSM hours minutes seconds ms =>
      exact flows_of_events (event_osTimeDlyHMSM k hours minutes seconds ms) rfl rfl none_ne
  | timeDlyResume prio => exact flows_of_events (event_osTimeDlyResume k prio) rfl rfl none_ne
  | timeSet ticks => exact flows_of_events rfl rfl rfl none_ne
  | schedLock => exact flows_of_events (event_osSchedLock k) rfl rfl none_ne
  | schedUnlock => exact flows_of_events (event_osSchedUnlock k) rfl rfl none_ne

/-- The loop of `OSTimeTick` leaves the events alone. -/
theorem event_foldl_tickTcb (l : List TcbId) (k : Kernel) :
    (l.foldl Kernel.tickTcb k).OSEventTbl = k.OSEventTbl := by
  induction l generalizing k with
  | nil => rfl
  | cons i l ih =>
      have round : (k.tickTcb i).OSEventTbl = k.OSEventTbl := by
        unfold Kernel.tickTcb
        simp only
        split_ifs
        · exact event_dlyExpired k i
        · rfl
        · rfl
      rw [List.foldl_cons, ih, round]

/-- A round of the loop of `OSTimeTick` changes neither what a task is registered with nor what
it has been given. -/
theorem Sound.waits_tickTcb (s : Sound k) {j : TcbId} (mem : j ∈ k.OSTCBList) (i : TcbId) :
    (((k.tickTcb j).OSTCBTbl i).Registered e ↔ (k.OSTCBTbl i).Registered e) ∧
      ((k.tickTcb j).OSTCBTbl i).OSTCBMsg = (k.OSTCBTbl i).OSTCBMsg := by
  unfold Kernel.tickTcb
  simp only
  split_ifs with delayed last
  · rw [dlyExpired_eq k j rfl]
    by_cases same : i = j
    · subst same
      have msg : (k.OSTCBTbl i).expired.OSTCBMsg = (k.OSTCBTbl i).OSTCBMsg := by
        unfold Tcb.expired
        split_ifs <;> rfl
      obtain ⟨-, -, -, registered⟩ := Tcb.expired_phase (s.phase i mem) delayed
      simp only [Function.update_self]
      exact ⟨(registered e).symm, msg⟩
    · simp [Function.update_of_ne same]
  · by_cases same : i = j
    · subst same
      simp [Kernel.setTcb, Tcb.Registered]
    · simp [Kernel.setTcb, Function.update_of_ne same]
  · simp

theorem Sound.waits_foldl_tickTcb {l : List TcbId} (s : Sound k)
    (tasks : ∀ i ∈ l, i ∈ k.OSTCBList) (i : TcbId) :
    (((l.foldl Kernel.tickTcb k).OSTCBTbl i).Registered e ↔ (k.OSTCBTbl i).Registered e) ∧
      ((l.foldl Kernel.tickTcb k).OSTCBTbl i).OSTCBMsg = (k.OSTCBTbl i).OSTCBMsg := by
  induction l generalizing k with
  | nil => exact ⟨Iff.rfl, rfl⟩
  | cons j l ih =>
      have mem := tasks j List.mem_cons_self
      have first := s.wakes_tickTcb mem
      obtain ⟨registered, msg⟩ := s.waits_tickTcb (e := e) mem i
      obtain ⟨registered', msg'⟩ := ih first.sound fun j mem => by
        rw [first.same.list]
        exact tasks j (List.mem_cons_of_mem _ mem)
      exact ⟨registered'.trans registered, msg'.trans msg⟩

/-- So a tick releases whom its post releases, with what the post gave them. -/
theorem Sound.received_osTimeTick (s : Sound k) (nested : 0 < k.OSIntNesting) :
    Kernel.received e k k.osTimeTick = Kernel.received e k (k.osSemPost k.OSTmrSemSignal).1 := by
  have hook := s.wakes_osTimeTickHook nested
  have counted : Sound { k.osTimeTickHook with OSTime := k.osTimeTickHook.OSTime + 1 } :=
    hook.sound.of_tables rfl rfl rfl rfl rfl rfl rfl rfl rfl
  have walked : ∀ i, ((k.osTimeTick.OSTCBTbl i).Registered e ↔
      (k.osTimeTickHook.OSTCBTbl i).Registered e) ∧
        (k.osTimeTick.OSTCBTbl i).OSTCBMsg = (k.osTimeTickHook.OSTCBTbl i).OSTCBMsg := by
    intro i
    unfold Kernel.osTimeTick
    simp only
    split_ifs
    · exact counted.waits_foldl_tickTcb (fun i mem => List.takeWhile_subset _ mem) i
    · exact ⟨Iff.rfl, rfl⟩
  have released : Kernel.released e k k.osTimeTick = Kernel.released e k k.osTimeTickHook := by
    refine List.filter_congr fun i _ => ?_
    rw [decide_eq_decide, (walked i).1]
  have msgs : (Kernel.released e k k.osTimeTickHook).map (fun i =>
      (k.osTimeTick.OSTCBTbl i).OSTCBMsg) = (Kernel.released e k k.osTimeTickHook).map fun i =>
        (k.osTimeTickHook.OSTCBTbl i).OSTCBMsg :=
    List.map_congr_left fun i _ => (walked i).2
  rw [Kernel.received, released, msgs]
  rfl

/-- **Every step** passes through the event what it posts and what it takes. -/
theorem Sound.flows_step (s : Sound k) (used : (k.OSEventTbl e).OSEventType = some kind) {a : Act}
    (inOrder : a.InOrder e) :
    Flows e (k.posted e a) (k.handed e a) k (k.step a) := by
  by_cases enabled : k.Enabled a
  · simp only [Kernel.posted, Kernel.handed, Kernel.step, if_pos enabled]
    cases a with
    | call c => exact s.flows_exec used c inOrder
    | sched =>
        rcases schedStep_cases k with same | ⟨place, -, same⟩
        · rw [same]
          exact .refl e k
        · rw [same]
          exact flows_of_eq (congrFun (sameTasks_osSched k).event e)
    | pendEnd =>
        rcases pendEndStep_cases k with same | ⟨kind', e', same⟩
        · rw [same]
          exact .refl e k
        · rw [same, osPendEnd_eq]
          -- a wait that has timed out changes a wait list, and nothing else
          refine flows_of_wait ?_
          simp only
          split_ifs
          · by_cases same : e = e'
            · subst same
              simp
            · simp [Function.update_of_ne same]
          · rfl
    | intEnter => exact flows_of_eq (congrFun (sameTasks_osIntEnter k).event e)
    | tick =>
        -- the hook of the clock signals the timer task, and the walk that follows touches no event
        obtain ⟨type, content⟩ := (s.posts_osSemPost k.OSTmrSemSignal).flows (e := e) s
        have walked : k.osTimeTick.OSEventTbl = (k.osSemPost k.OSTmrSemSignal).1.OSEventTbl := by
          simp only [Kernel.osTimeTick]
          split_ifs
          · rw [event_foldl_tickTcb]
            rfl
          · rfl
        refine ⟨by rw [walked]; exact type, ?_⟩
        simp only [s.received_osTimeTick enabled, walked]
        exact content
    | intExit => exact flows_of_eq (congrFun (sameTasks_osIntExit k).event e)
    | pendSV => exact flows_of_eq rfl
  · simp only [Kernel.posted, Kernel.handed, Kernel.step, if_neg enabled]
    exact .refl e k

/-! ### Whole runs -/

/-- The same with the discipline. -/
def Kernel.InOrder (e : EventId) (k : Kernel) (a : Act) : Prop := k.Disciplined a ∧ a.InOrder e

instance (e : EventId) (k : Kernel) : DecidablePred (k.InOrder e) :=
  fun _ => inferInstanceAs (Decidable (_ ∧ _))

/-- The task of priority 4 has created a queue for two messages. -/
def queueCreation : List Act :=
  [.pendSV, .call (.semPend (some 1) 0), .sched, .pendSV, .call (.qCreate (fun _ => 0) 2)]

/-- The task waits for a message.  An interrupt posts two: the first goes to the task, the
second into the queue, where the task finds it with its next call. -/
def queueTraffic : List Act :=
  [.call (.qPend (some 2) 0), .sched, .pendSV, .intEnter, .call (.qPost (some 2) 11),
    .call (.qPost (some 2) 12), .intExit, .pendSV, .pendEnd, .call (.qPend (some 2) 0)]

example : outputs Kernel.step (Kernel.handed 2)
    (run Kernel.step (Kernel.boot [4]) queueCreation) queueTraffic =
      [[], [], [], [], [11], [], [], [], [], [12]] := by
  decide +kernel

end Ucos

end CannonCar
