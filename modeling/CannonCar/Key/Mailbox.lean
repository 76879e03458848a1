import CannonCar.Key.KeyTask

/-!
# The key mailbox

`OSMboxPost` and `OSMboxPend` of `utilities/uCOSII/core/os_mbox.c` on `msg_key`, with
`KeyStartTask` on one side and the UI task on the other.

The two sides interleave freely: the key task runs at the higher priority, so a sample
may arrive between any two operations of the UI task — while it waits, after its
timeout has fired but before it has run again, after it has been handed a message, and
above all while it is busy with a page.  `Link` keeps what has been posted and what
`OSMboxPend` has returned; `noKeyLost_iff` says when the second is the first.

## What is load-bearing

**Where the receiver stands.**  `Pender` tells waiting from having timed out without having run
since, and from having been handed a message.  A message handed over is in the control block
of the task and not in the box, so that a post that comes then finds the box free.

**What is lost is what a full box refuses.**  `osMboxPost` answers `OS_ERR_MBOX_FULL` and the
key task does not look at the answer.  `BoxFree` is the condition before a sample, on the
state and the sample alone, and the equivalence holds throughout a run because a key that has
been refused is missing from then on.

The kernel here is the mailbox alone; `Ucos` has the whole of it.
-/

namespace CannonCar

open Trajectory

/-- The codes `OSMboxPost` and `OSMboxPend` answer with. -/
inductive OsErr
  | none
  | postNullPtr
  | mboxFull
  | timeout
  deriving DecidableEq

/-- Where the only task that pends on the mailbox stands. -/
inductive Pender
  /-- Not inside `OSMboxPend`. -/
  | running
  /-- On the wait list, with or without a timeout. -/
  | waiting (timed : Bool)
  /-- Made ready by `OSTimeTick`, but on the wait list until it runs. -/
  | timedOut
  /-- Made ready by a post, the message in its control block. -/
  | handed (pmsg : ℕ)
  deriving DecidableEq

/-- The event control block, with the pending task's state. -/
structure Mailbox where
  OSEventPtr : ℕ
  pender : Pender
  deriving DecidableEq

namespace Mailbox

/-- `OSMboxCreate((void*)0)`. -/
def create : Mailbox := ⟨0, .running⟩

/-- `OSMboxPost`. -/
def osMboxPost (pmsg : ℕ) (m : Mailbox) : Mailbox × OsErr :=
  if pmsg = 0 then (m, .postNullPtr)
  else match m.pender with
    | .waiting _ | .timedOut => ({ m with pender := .handed pmsg }, .none)
    | .running | .handed _ =>
      if m.OSEventPtr ≠ 0 then (m, .mboxFull) else ({ m with OSEventPtr := pmsg }, .none)

/-- `OSMboxPend` up to its return or to the point where it suspends the task. -/
def osMboxPend (timed : Bool) (m : Mailbox) : Mailbox × Option (ℕ × OsErr) :=
  if m.OSEventPtr ≠ 0 then ({ m with OSEventPtr := 0 }, some (m.OSEventPtr, .none))
  else ({ m with pender := .waiting timed }, none)

/-- `OSMboxPend` from the point where the task runs again. -/
def osMboxPendResume (m : Mailbox) : Mailbox × Option (ℕ × OsErr) :=
  match m.pender with
  | .handed pmsg => ({ m with pender := .running }, some (pmsg, .none))
  | .timedOut => ({ m with pender := .running }, some (0, .timeout))
  | .running | .waiting _ => (m, none)

/-- `OSTimeTick` when the delay of the waiting task runs out. -/
def osTimeTick (m : Mailbox) : Mailbox :=
  match m.pender with
  | .waiting true => { m with pender := .timedOut }
  | _ => m

/-- The task is on the wait list, so `OSEventGrp` is not 0. -/
def Awaited (m : Mailbox) : Prop :=
  match m.pender with
  | .waiting _ | .timedOut => True
  | .running | .handed _ => False

/-- The message on its way through `OSMboxPend`. -/
def inHand (m : Mailbox) : List ℕ :=
  match m.pender with
  | .handed pmsg => [pmsg]
  | _ => []

/-- The message in the box. -/
def content (m : Mailbox) : List ℕ := if m.OSEventPtr = 0 then [] else [m.OSEventPtr]

/-! ### The invariant of the mailbox -/

/-- A waiting task never leaves a message lying, and what it is handed is one. -/
structure Ok (m : Mailbox) : Prop where
  awaited : m.Awaited → m.OSEventPtr = 0
  handed : ∀ pmsg, m.pender = .handed pmsg → pmsg ≠ 0

theorem ok_create : create.Ok := ⟨fun _ => rfl, fun _ handed => nomatch handed⟩

/-- A task that is not on the wait list, with any message in the box. -/
theorem ok_running (ptr : ℕ) : Ok ⟨ptr, .running⟩ := ⟨nofun, nofun⟩

theorem ok_handed {pmsg : ℕ} (message : pmsg ≠ 0) (ptr : ℕ) : Ok ⟨ptr, .handed pmsg⟩ := by
  refine ⟨nofun, fun other same => ?_⟩
  rwa [← Pender.handed.inj same]

/-- An empty box, with the task on the wait list. -/
theorem ok_empty {pender : Pender} (alone : ∀ pmsg, pender ≠ .handed pmsg) : Ok ⟨0, pender⟩ :=
  ⟨fun _ => rfl, fun pmsg handed => absurd handed (alone pmsg)⟩

section Operations

variable {m : Mailbox} {pmsg : ℕ}

theorem Ok.osMboxPost (ok : m.Ok) (message : pmsg ≠ 0) : (m.osMboxPost pmsg).1.Ok := by
  obtain ⟨ptr, pender⟩ := m
  unfold Mailbox.osMboxPost
  rw [if_neg message]
  cases pender with
  | waiting _ => exact ok_handed message ptr
  | timedOut => exact ok_handed message ptr
  | running =>
      simp only
      split_ifs
      · exact ok_running _
      · exact ok_running _
  | handed other =>
      have isMessage : other ≠ 0 := ok.handed other rfl
      simp only
      split_ifs
      · exact ok_handed isMessage _
      · exact ok_handed isMessage _

theorem Ok.osMboxPend (busy : m.pender = .running) (timed : Bool) : (m.osMboxPend timed).1.Ok := by
  obtain ⟨ptr, pender⟩ := m
  obtain rfl : pender = .running := busy
  unfold Mailbox.osMboxPend
  split_ifs with message
  · exact ok_running _
  · obtain rfl : ptr = 0 := not_ne_iff.mp message
    exact ok_empty nofun

theorem Ok.osTimeTick (ok : m.Ok) : m.osTimeTick.Ok := by
  unfold Mailbox.osTimeTick
  split
  next waits =>
    have empty : m.OSEventPtr = 0 := ok.awaited (by rw [Awaited, waits]; trivial)
    rw [empty]
    exact ok_empty nofun
  next => exact ok

theorem Ok.osMboxPendResume (ok : m.Ok) : m.osMboxPendResume.1.Ok := by
  unfold Mailbox.osMboxPendResume
  split
  · exact ok_running _
  · exact ok_running _
  · exact ok
  · exact ok

/-! ### What each operation does to the messages -/

/-- A post to an empty box puts the message behind the one on its way. -/
theorem messages_osMboxPost (message : pmsg ≠ 0) (free : m.OSEventPtr = 0) :
    (m.osMboxPost pmsg).1.inHand ++ (m.osMboxPost pmsg).1.content =
      m.inHand ++ m.content ++ [pmsg] := by
  obtain ⟨ptr, pender⟩ := m
  obtain rfl : ptr = 0 := free
  cases pender <;> simp [Mailbox.osMboxPost, inHand, content, message]

/-- A post to a full box is refused. -/
theorem osMboxPost_full (ok : m.Ok) (message : pmsg ≠ 0) (full : m.OSEventPtr ≠ 0) :
    m.osMboxPost pmsg = (m, .mboxFull) := by
  have alone : ¬ m.Awaited := fun awaited => full (ok.awaited awaited)
  obtain ⟨ptr, pender⟩ := m
  unfold Mailbox.osMboxPost
  rw [if_neg message]
  cases pender with
  | running => exact if_pos full
  | handed _ => exact if_pos full
  | waiting _ => exact absurd trivial alone
  | timedOut => exact absurd trivial alone

/-- The message a call of `OSMboxPend` comes back with, the 0 of a timeout left out. -/
def received : Option (ℕ × OsErr) → List ℕ
  | some (pmsg, _) => if pmsg = 0 then [] else [pmsg]
  | none => []

/-- A call of `OSMboxPend` takes the message that is in the box. -/
theorem messages_osMboxPend (busy : m.pender = .running) (timed : Bool) :
    received (m.osMboxPend timed).2 ++
        ((m.osMboxPend timed).1.inHand ++ (m.osMboxPend timed).1.content) =
      m.inHand ++ m.content := by
  obtain ⟨ptr, pender⟩ := m
  obtain rfl : pender = .running := busy
  unfold Mailbox.osMboxPend
  split_ifs with message
  · simp [received, inHand, content, message]
  · simp [received, inHand, content]

theorem messages_osTimeTick :
    m.osTimeTick.inHand ++ m.osTimeTick.content = m.inHand ++ m.content := by
  unfold Mailbox.osTimeTick
  split
  next waits => simp [inHand, content, waits]
  next => rfl

/-- A task that runs again receives the message it was handed. -/
theorem messages_osMboxPendResume (ok : m.Ok) :
    received m.osMboxPendResume.2 ++
        (m.osMboxPendResume.1.inHand ++ m.osMboxPendResume.1.content) =
      m.inHand ++ m.content := by
  unfold Mailbox.osMboxPendResume
  split
  next pmsg handed => simp [received, inHand, content, handed, ok.handed pmsg handed]
  next timedOut => simp [received, inHand, content, timedOut]
  next => rfl
  next => rfl

end Operations

end Mailbox

/-- What can happen between the two tasks. -/
inductive LinkEvent
  /-- One iteration of `KeyStartTask`. -/
  | sample (key : ℕ)
  /-- The UI task calls `OSMboxPend`, with a timeout or with 0. -/
  | pend (timed : Bool)
  /-- A tick ends the UI task's wait. -/
  | tick
  /-- The UI task, made ready, runs again. -/
  | resume

/-- The two tasks and the mailbox between them.  `posted` are the values given to
`OSMboxPost`, `returned` those `OSMboxPend` has answered with. -/
structure Link where
  task : KeyTask
  mbox : Mailbox
  posted : List ℕ
  returned : List ℕ

namespace Link

/-- The start, with the mailbox just created. -/
def init (task : KeyTask) : Link := ⟨task, .create, [], []⟩

/-- `OSMboxPend` has come back, if it has. -/
def receive (answer : Option (ℕ × OsErr)) (returned : List ℕ) : List ℕ :=
  match answer with
  | some (pmsg, _) => returned ++ [pmsg]
  | none => returned

/-- One event.  The key task ignores what `OSMboxPost` answers. -/
def step (s : Link) : LinkEvent → Link
  | .sample key =>
      match s.task.post key with
      | some k =>
          { s with task := s.task.step key, mbox := (s.mbox.osMboxPost k).1,
                   posted := s.posted ++ [k] }
      | none => { s with task := s.task.step key }
  | .pend timed =>
      if s.mbox.pender = .running then
        { s with mbox := (s.mbox.osMboxPend timed).1,
                 returned := receive (s.mbox.osMboxPend timed).2 s.returned }
      else s
  | .tick => { s with mbox := s.mbox.osTimeTick }
  | .resume =>
      { s with mbox := s.mbox.osMboxPendResume.1,
               returned := receive s.mbox.osMboxPendResume.2 s.returned }

/-- The keys that have reached the UI task: those returned to it, without the zeros of
its timeouts, and the one that has been handed to it. -/
def delivered (s : Link) : List ℕ := s.returned.filter (· ≠ 0) ++ s.mbox.inHand

/-- No key lost, doubled or out of order so far. -/
def NoKeyLost (s : Link) : Prop := s.delivered ++ s.mbox.content = s.posted

instance (s : Link) : Decidable s.NoKeyLost := inferInstanceAs (Decidable (_ = _))

/-- The step is not a post to a box that still holds a key. -/
def BoxFree (s : Link) (e : LinkEvent) : Prop :=
  ∀ key, e = .sample key → s.task.Fires key → s.mbox.OSEventPtr = 0

theorem noKeyLost_iff (s : Link) :
    s.NoKeyLost ↔ s.returned.filter (· ≠ 0) ++ (s.mbox.inHand ++ s.mbox.content) = s.posted := by
  rw [NoKeyLost, delivered, List.append_assoc]

theorem filter_receive (answer : Option (ℕ × OsErr)) (returned : List ℕ) :
    (receive answer returned).filter (· ≠ 0) =
      returned.filter (· ≠ 0) ++ Mailbox.received answer := by
  cases answer with
  | none => simp [receive, Mailbox.received]
  | some r =>
      obtain ⟨pmsg, err⟩ := r
      by_cases zero : pmsg = 0 <;> simp [receive, Mailbox.received, zero]

/-! ## One step -/

section Step

variable {s : Link}

theorem step_sample_of_fires {key : ℕ} (fires : s.task.Fires key) :
    s.step (.sample key) =
      { s with task := s.task.step key, mbox := (s.mbox.osMboxPost s.task.keysave).1,
               posted := s.posted ++ [s.task.keysave] } := by
  rw [step, KeyTask.post_eq, if_pos fires]

theorem step_sample_of_not_fires {key : ℕ} (quiet : ¬ s.task.Fires key) :
    s.step (.sample key) = { s with task := s.task.step key } := by
  rw [step, KeyTask.post_eq, if_neg quiet]

/-- What a step other than a sample leaves: the keys that came out of the box, and in
it, are those that were in it. -/
theorem noKeyLost_receive {m : Mailbox} {answer : Option (ℕ × OsErr)}
    (kept : Mailbox.received answer ++ (m.inHand ++ m.content) = s.mbox.inHand ++ s.mbox.content) :
    NoKeyLost { s with mbox := m, returned := receive answer s.returned } ↔ s.NoKeyLost := by
  rw [noKeyLost_iff, noKeyLost_iff, filter_receive, List.append_assoc, kept]

/-- The mailbox stays well-formed in every step. -/
theorem ok_step (ok : s.mbox.Ok) (e : LinkEvent) : (s.step e).mbox.Ok := by
  cases e with
  | sample key =>
      by_cases fires : s.task.Fires key
      · rw [step_sample_of_fires fires]
        exact ok.osMboxPost (Nat.one_le_iff_ne_zero.mp fires.1.1)
      · rw [step_sample_of_not_fires fires]
        exact ok
  | pend timed =>
      rw [step]
      split_ifs with busy
      · exact Mailbox.Ok.osMboxPend busy timed
      · exact ok
  | tick => exact ok.osTimeTick
  | resume => exact ok.osMboxPendResume

/-- A step loses no key exactly if it does not post to a full box. -/
theorem noKeyLost_step_iff (ok : s.mbox.Ok) (here : s.NoKeyLost) (e : LinkEvent) :
    (s.step e).NoKeyLost ↔ s.BoxFree e := by
  cases e with
  | sample key =>
      by_cases fires : s.task.Fires key
      · have message : s.task.keysave ≠ 0 := Nat.one_le_iff_ne_zero.mp fires.1.1
        have boxFree : s.BoxFree (.sample key) ↔ s.mbox.OSEventPtr = 0 := by
          constructor
          · exact fun free => free key rfl fires
          · exact fun free _ _ _ => free
        rw [boxFree, step_sample_of_fires fires, noKeyLost_iff]
        rw [noKeyLost_iff] at here
        constructor
        · intro still
          by_contra full
          have refused : (s.mbox.osMboxPost s.task.keysave).1 = s.mbox := by
            rw [Mailbox.osMboxPost_full ok message full]
          rw [refused, here] at still
          exact absurd (congrArg List.length still) (by simp)
        · intro free
          rw [Mailbox.messages_osMboxPost message free, ← here]
          simp only [List.append_assoc]
      · rw [step_sample_of_not_fires fires]
        refine ⟨fun _ other same fires' => ?_, fun _ => here⟩
        rw [LinkEvent.sample.inj same] at fires
        exact absurd fires' fires
  | pend timed =>
      refine ⟨fun _ _ same => (nomatch same), fun _ => ?_⟩
      rw [step]
      split_ifs with busy
      · exact (noKeyLost_receive (Mailbox.messages_osMboxPend busy timed)).mpr here
      · exact here
  | tick =>
      refine ⟨fun _ _ same => (nomatch same), fun _ => ?_⟩
      have kept : Mailbox.received none ++ (s.mbox.osTimeTick.inHand ++ s.mbox.osTimeTick.content) =
          s.mbox.inHand ++ s.mbox.content := Mailbox.messages_osTimeTick
      exact (noKeyLost_receive kept).mpr here
  | resume =>
      refine ⟨fun _ _ same => (nomatch same), fun _ => ?_⟩
      exact (noKeyLost_receive (Mailbox.messages_osMboxPendResume ok)).mpr here

end Step

/-! ## Runs -/

/-- **Keys are lost at a full box and nowhere else.**  Whatever the key task starts from
and however its iterations fall between the calls, timeouts and computations of the UI
task, the keys returned, the one handed over and the one in the box are the keys posted,
in order and throughout the run, exactly if no iteration posts while the box still holds
a key. -/
theorem noKeyLost_throughout_iff (task : KeyTask) (events : List LinkEvent) :
    Throughout NoKeyLost step (init task) events ↔ Guarded BoxFree step (init task) events := by
  rw [throughout_iff_guarded (I := fun s => s.mbox.Ok) (P := NoKeyLost)
    (fun _ e ok => ok_step ok e) (fun _ e ok here => noKeyLost_step_iff ok here e)
    Mailbox.ok_create events]
  exact and_iff_right rfl

/-- Key 1 and then key 2 are let go while the UI task is busy: the second is lost. -/
theorem not_noKeyLost_busy :
    ¬ Throughout NoKeyLost step (init (KeyTask.init 0))
      [.sample 1, .sample 0, .sample 2, .sample 0] := by
  intro noKeyLost
  exact absurd noKeyLost.last (by decide)

end Link

end CannonCar
