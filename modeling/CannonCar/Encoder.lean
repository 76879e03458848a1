import CannonCar.Foundation.Trajectory

/-!
# The pulse counter

`speedStartTask` of `app/app.c` and the DMA channel it reads, `drivers/K/src/dma.c` as
set up by `DMA_PulseCountInit` of `work/CONM/conm.c`.

Every rising edge of the encoder is a request of DMA channel 1, whose minor loop moves
one dummy byte: what counts is `CITER`, which each request takes down by one.  Every
5 ms the task reads the counter, runs the controller on what it read, and sets the
counter back.  Between the reading and the setting back the counter goes on counting;
`encodes_exact_iff` says that these edges, and no others, are missing from the readings.

## What is load-bearing

* A step of the task is one of the five statements of its loop (`SpeedPc`); edges may fall
  between any two of them (`PulseEvent`).
* `Rate` is the assumption on the edges: fewer in a period than the counter can hold.  Without
  it the counter runs out and the channel is disabled.
* `OutsideWindow` looks at where the task stands when an edge falls, so the condition is on the
  state before the edge.  Between the reading and the setting back the counter is counted
  down by edges that the setting back then wipes out.
* `Accounted` is what an edge in that window breaks for good: every edge is in a reading or in
  the counter.
-/

namespace CannonCar

open Trajectory

/-! ## The channel -/

/-- `DMA_CITER_ELINKNO_CITER_MASK`. -/
def citerMax : ℕ := 0x7FFF

/-- The registers of one DMA channel: the current and the starting major loop count,
and whether requests are enabled. -/
structure DmaChannel where
  citer : ℕ
  biter : ℕ
  erq : Bool
  deriving DecidableEq

namespace DmaChannel

/-- `DMA_PulseCountInit`. -/
def pulseCountInit : DmaChannel := ⟨citerMax, citerMax, true⟩

/-- A request.  The last one of a major loop reloads the counter and, `DREQ` being set,
disables the channel. -/
def request (c : DmaChannel) : DmaChannel :=
  if c.erq then
    if c.citer ≤ 1 then { c with citer := c.biter, erq := false }
    else { c with citer := c.citer - 1 }
  else c

/-- `DMA_GetMajorLoopCount`. -/
def getMajorLoopCount (c : DmaChannel) : ℕ := c.citer % 2 ^ 15

/-- `DMA_CancelTransfer`, which retires a transfer that is under way and leaves the
counter alone. -/
def cancelTransfer (c : DmaChannel) : DmaChannel := c

/-- `DMA_SetMajorLoopCounter`. -/
def setMajorLoopCounter (val : ℕ) (c : DmaChannel) : DmaChannel := { c with citer := val % 2 ^ 15 }

/-- `DMA_EnableRequest`. -/
def enableRequest (c : DmaChannel) : DmaChannel := { c with erq := true }

end DmaChannel

/-! ## The task -/

/-- The statement of `speedStartTask` that comes next. -/
inductive SpeedPc
  | read
  | ctrl
  | cancel
  | reset
  | enable
  deriving DecidableEq

/-- What can happen: an edge of the encoder, or the next statement of the task, under
the value `speedswitch` has at that time. -/
inductive PulseEvent
  | edge
  | task (speedswitch : Bool)

/-- The task and its channel, with the readings so far, the edges so far and the edges
since the last reading. -/
structure PulseCounter where
  dma : DmaChannel
  pc : SpeedPc
  encodes : List ℕ
  edges : ℕ
  period : ℕ
  deriving DecidableEq

namespace PulseCounter

/-- The start of the task. -/
def init : PulseCounter := ⟨.pulseCountInit, .read, [], 0, 0⟩

/-- `ENCODE` as the task computes it. -/
def encode (s : PulseCounter) : ℕ := citerMax - s.dma.getMajorLoopCount

/-- The next statement of the loop.  `speedCtrl` touches neither the channel nor
`ENCODE`. -/
def advance (speedswitch : Bool) (s : PulseCounter) : PulseCounter :=
  match s.pc with
  | .read =>
      { s with encodes := s.encodes ++ [s.encode], period := 0,
               pc := if speedswitch then .ctrl else .cancel }
  | .ctrl => { s with pc := .cancel }
  | .cancel => { s with dma := s.dma.cancelTransfer, pc := .reset }
  | .reset => { s with dma := s.dma.setMajorLoopCounter citerMax, pc := .enable }
  | .enable => { s with dma := s.dma.enableRequest, pc := .read }

/-- One event. -/
def step (s : PulseCounter) : PulseEvent → PulseCounter
  | .edge => { s with dma := s.dma.request, edges := s.edges + 1, period := s.period + 1 }
  | .task speedswitch => s.advance speedswitch

/-- The counter has been read and not yet set back. -/
def InWindow (s : PulseCounter) : Prop := s.pc = .ctrl ∨ s.pc = .cancel ∨ s.pc = .reset

instance (s : PulseCounter) : Decidable s.InWindow := inferInstanceAs (Decidable (_ ∨ _))

/-- Fewer than 0x7FFF edges in a period, which runs from one reading to the next. -/
def Rate (s : PulseCounter) : PulseEvent → Prop
  | .edge => s.period + 1 < citerMax
  | .task _ => True

instance (s : PulseCounter) : ∀ e, Decidable (s.Rate e)
  | .edge => inferInstanceAs (Decidable (_ < _))
  | .task _ => inferInstanceAs (Decidable True)

/-- The event is not an edge between a reading and the setting back. -/
def OutsideWindow (s : PulseCounter) : PulseEvent → Prop
  | .edge => ¬ s.InWindow
  | .task _ => True

instance (s : PulseCounter) : ∀ e, Decidable (s.OutsideWindow e)
  | .edge => inferInstanceAs (Decidable (¬ _))
  | .task _ => inferInstanceAs (Decidable True)

/-! ## The account -/

/-- What the counter holds for the next reading. -/
def unread (s : PulseCounter) : ℕ := if s.InWindow then 0 else citerMax - s.dma.citer

/-- Every edge is in a reading or in the counter. -/
def Accounted (s : PulseCounter) : Prop := s.encodes.sum + s.unread = s.edges

/-- What holds of the counter at the rates admitted: it never runs out before it is
read, and the channel is disabled only after edges have been missed. -/
structure Ok (s : PulseCounter) : Prop where
  citer_pos : 1 ≤ s.dma.citer
  citer_le : s.dma.citer ≤ citerMax
  biter : s.dma.biter = citerMax
  unread_le : s.unread ≤ s.period
  account_le : s.encodes.sum + s.unread ≤ s.edges
  disabled : s.dma.erq = false → ¬ s.Accounted

theorem init_ok : init.Ok := by
  constructor
  · decide
  · decide
  · rfl
  · exact le_rfl
  · exact le_rfl
  · exact nofun

theorem init_accounted : init.Accounted := rfl

section Step

variable {s : PulseCounter}

theorem unread_of_inWindow (window : s.InWindow) : s.unread = 0 := if_pos window

theorem unread_of_not_inWindow (outside : ¬ s.InWindow) : s.unread = citerMax - s.dma.citer :=
  if_neg outside

theorem Ok.encode (ok : s.Ok) : s.encode = citerMax - s.dma.citer := by
  have fits : s.dma.citer < 2 ^ 15 := lt_of_le_of_lt ok.citer_le (by decide)
  rw [PulseCounter.encode, DmaChannel.getMajorLoopCount, Nat.mod_eq_of_lt fits]

theorem citer_request_mem (ok : s.Ok) :
    1 ≤ s.dma.request.citer ∧ s.dma.request.citer ≤ citerMax ∧ s.dma.request.biter = citerMax := by
  obtain ⟨pos, le, biter, -, -, -⟩ := ok
  unfold DmaChannel.request
  split_ifs with enabled last
  · exact ⟨by rw [biter]; decide, le_of_eq biter, biter⟩
  · exact ⟨Nat.le_sub_one_of_lt (not_le.mp last), le_trans (Nat.sub_le _ _) le, biter⟩
  · exact ⟨pos, le, biter⟩

/-- An edge in the window is in no account. -/
theorem edge_inWindow (ok : s.Ok) (window : s.InWindow) :
    (s.step .edge).Ok ∧ ¬ (s.step .edge).Accounted := by
  obtain ⟨pos, le, biter⟩ := citer_request_mem ok
  have nothing : (s.step .edge).unread = 0 := unread_of_inWindow window
  have behind : s.encodes.sum ≤ s.edges := le_trans (Nat.le_add_right _ _) ok.account_le
  have missed : ¬ (s.step .edge).Accounted := by
    intro accounted
    rw [Accounted, nothing] at accounted
    exact absurd accounted (ne_of_lt (Nat.lt_succ_of_le behind))
  refine ⟨⟨pos, le, biter, ?_, ?_, fun _ => missed⟩, missed⟩
  · rw [nothing]
    exact Nat.zero_le _
  · rw [nothing]
    exact Nat.le_succ_of_le behind

/-- An edge outside the window is counted, unless the channel is disabled. -/
theorem edge_outside (ok : s.Ok) (rate : s.Rate .edge) (outside : ¬ s.InWindow) :
    (s.step .edge).Ok ∧ ((s.step .edge).Accounted ↔ s.Accounted) := by
  obtain ⟨pos, le, biter⟩ := citer_request_mem ok
  have before : s.unread = citerMax - s.dma.citer := unread_of_not_inWindow outside
  have after : (s.step .edge).unread = citerMax - s.dma.request.citer :=
    unread_of_not_inWindow outside
  have slow : s.period + 1 < citerMax := rate
  have unread_le := ok.unread_le
  have account_le := ok.account_le
  have citer_le := ok.citer_le
  by_cases enabled : s.dma.erq
  · have more : s.dma.request = { s.dma with citer := s.dma.citer - 1 } := by
      rw [DmaChannel.request, if_pos enabled, if_neg (by omega)]
    have counted : (s.step .edge).unread = s.unread + 1 := by
      rw [after, before, more]
      simp only
      omega
    have same : (s.step .edge).Accounted ↔ s.Accounted := by
      rw [Accounted, Accounted, counted, ← Nat.add_assoc]
      exact Nat.succ_inj
    refine ⟨⟨pos, le, biter, ?_, ?_, ?_⟩, same⟩
    · rw [counted]
      exact Nat.succ_le_succ unread_le
    · rw [counted]
      exact Nat.succ_le_succ account_le
    · intro off
      have still : s.dma.request.erq = s.dma.erq := by rw [more]
      exact absurd enabled (by rw [← still]; exact Bool.eq_false_iff.mp off)
  · have off : s.dma.erq = false := Bool.eq_false_iff.mpr enabled
    have idle : s.dma.request = s.dma := by rw [DmaChannel.request, if_neg enabled]
    have counted : (s.step .edge).unread = s.unread := by rw [after, before, idle]
    have missed : ¬ (s.step .edge).Accounted := by
      intro accounted
      rw [Accounted, counted] at accounted
      exact absurd accounted (ne_of_lt (Nat.lt_succ_of_le account_le))
    refine ⟨⟨pos, le, biter, ?_, ?_, fun _ => missed⟩, ?_⟩
    · rw [counted]
      exact Nat.le_succ_of_le unread_le
    · rw [counted]
      exact Nat.le_succ_of_le account_le
    · exact iff_of_false missed (ok.disabled off)

/-- What the statements of the task leave the next reading to find: a reading takes
everything, the setting back leaves nothing. -/
theorem unread_advance (speedswitch : Bool) :
    (s.advance speedswitch).unread = if s.pc = .read then 0 else s.unread := by
  obtain ⟨⟨citer, biter, erq⟩, pc, encodes, edges, period⟩ := s
  cases pc with
  | read => cases speedswitch <;> simp [advance, unread, InWindow]
  | ctrl => simp [advance, unread, InWindow]
  | cancel => simp [advance, unread, InWindow]
  | reset => simp [advance, unread, InWindow, DmaChannel.setMajorLoopCounter, citerMax]
  | enable => simp [advance, unread, InWindow, DmaChannel.enableRequest]

theorem encodes_advance (ok : s.Ok) (speedswitch : Bool) :
    (s.advance speedswitch).encodes.sum =
      s.encodes.sum + if s.pc = .read then s.unread else 0 := by
  have encode := ok.encode
  obtain ⟨⟨citer, biter, erq⟩, pc, encodes, edges, period⟩ := s
  cases pc with
  | read =>
      rw [advance, encode]
      simp [unread, InWindow]
  | ctrl => rfl
  | cancel => rfl
  | reset => rfl
  | enable => rfl

@[simp] theorem edges_advance (speedswitch : Bool) :
    (s.advance speedswitch).edges = s.edges := by
  unfold advance
  cases s.pc <;> rfl

theorem period_advance (speedswitch : Bool) :
    (s.advance speedswitch).period = if s.pc = .read then 0 else s.period := by
  unfold advance
  cases s.pc <;> rfl

/-- The registers the statements of the task leave. -/
theorem dma_advance (speedswitch : Bool) :
    (s.advance speedswitch).dma =
      if s.pc = .reset then s.dma.setMajorLoopCounter citerMax
      else if s.pc = .enable then s.dma.enableRequest
      else s.dma := by
  unfold advance
  cases s.pc <;> rfl

/-- A statement of the task moves edges from the counter to the readings, or none. -/
theorem account_advance (ok : s.Ok) (speedswitch : Bool) :
    (s.advance speedswitch).encodes.sum + (s.advance speedswitch).unread =
      s.encodes.sum + s.unread := by
  rw [encodes_advance ok, unread_advance]
  split_ifs <;> rfl

theorem accounted_advance (ok : s.Ok) (speedswitch : Bool) :
    (s.advance speedswitch).Accounted ↔ s.Accounted := by
  rw [Accounted, Accounted, account_advance ok, edges_advance]

theorem ok_advance (ok : s.Ok) (speedswitch : Bool) : (s.advance speedswitch).Ok := by
  have full : citerMax % 2 ^ 15 = citerMax := by decide
  refine ⟨?_, ?_, ?_, ?_, ?_, ?_⟩
  · rw [dma_advance]
    split_ifs
    · exact le_of_lt (by decide : 1 < citerMax % 2 ^ 15)
    · exact ok.citer_pos
    · exact ok.citer_pos
  · rw [dma_advance]
    split_ifs
    · exact le_of_eq full
    · exact ok.citer_le
    · exact ok.citer_le
  · rw [dma_advance]
    split_ifs <;> exact ok.biter
  · rw [unread_advance, period_advance]
    split_ifs
    · exact le_rfl
    · exact ok.unread_le
  · rw [account_advance ok, edges_advance]
    exact ok.account_le
  · rw [dma_advance, accounted_advance ok]
    split_ifs
    · exact ok.disabled
    · exact nofun
    · exact ok.disabled

theorem ok_step (ok : s.Ok) {e : PulseEvent} (rate : s.Rate e) : (s.step e).Ok := by
  cases e with
  | edge =>
      by_cases window : s.InWindow
      · exact (edge_inWindow ok window).1
      · exact (edge_outside ok rate window).1
  | task speedswitch => exact ok_advance ok speedswitch

/-- A step keeps the account exactly if it is not an edge in the window, and no step
repairs it. -/
theorem accounted_step_iff (ok : s.Ok) {e : PulseEvent} (rate : s.Rate e) :
    (s.step e).Accounted ↔ s.Accounted ∧ s.OutsideWindow e := by
  cases e with
  | edge =>
      by_cases window : s.InWindow
      · exact iff_of_false (edge_inWindow ok window).2 fun both => both.2 window
      · rw [(edge_outside ok rate window).2]
        exact (and_iff_left window).symm
  | task speedswitch =>
      rw [step, accounted_advance ok]
      exact (and_iff_left trivial).symm

end Step

/-! ## Runs -/

theorem ok_run {events : List PulseEvent} (rate : Guarded Rate step init events) :
    (run step init events).Ok :=
  run_invariant_of_guarded (I := Ok) (fun _ _ ok meets => ok_step ok meets) init_ok rate

theorem accounted_run_iff {events : List PulseEvent} (rate : Guarded Rate step init events) :
    (run step init events).Accounted ↔ Guarded OutsideWindow step init events := by
  rw [run_iff_guarded (fun _ _ ok rate => ok_step ok rate)
    (fun _ _ ok rate => accounted_step_iff ok rate) init_ok rate]
  exact and_iff_right init_accounted

/-- **Pulses are lost between the reading and the setting back.**  Take any run at an
admissible rate that has come to a reading of the counter.  With that reading, the
readings add up to the edges there have been exactly if none of the edges fell between a
reading and the setting back of the counter after it. -/
theorem encodes_exact_iff (events : List PulseEvent) (rate : Guarded Rate step init events)
    (atRead : (run step init events).pc = .read) (speedswitch : Bool) :
    ((run step init events).step (.task speedswitch)).encodes.sum =
        (run step init events).edges ↔
      Guarded OutsideWindow step init events := by
  rw [← accounted_run_iff rate, Accounted, step, encodes_advance (ok_run rate), if_pos atRead]

/-- One period with an edge in it, then the reading of the next. -/
theorem encodes_exact_first_period :
    ((run step init [.edge, .task true, .task true, .task true, .task true, .task true,
          .edge]).step (.task true)).encodes.sum =
        (run step init [.edge, .task true, .task true, .task true, .task true, .task true,
          .edge]).edges ↔
      Guarded OutsideWindow step init
        [.edge, .task true, .task true, .task true, .task true, .task true, .edge] :=
  encodes_exact_iff _ (by decide) (by decide) true

/-- A period with an edge while the controller runs on the reading. -/
def lateEdge : List PulseEvent :=
  [.task true, .edge, .task true, .task true, .task true, .task true]

/-- The edge of `lateEdge` is in no reading. -/
theorem not_encodes_exact :
    Guarded Rate step init lateEdge ∧ (run step init lateEdge).pc = .read ∧
      ((run step init lateEdge).step (.task true)).encodes.sum ≠
        (run step init lateEdge).edges := by
  decide

end PulseCounter

end CannonCar
