import CannonCar.Kboot.Bootloader

/-!
# Acknowledgements

Every packet the bootloader accepts is answered by one frame, ACK or ACK-ABORT, and the
frame is deferred: `serial_packet_read` raises a flag, `data_phase_abort` turns it into
the other flag, and whichever of `serial_packet_read` and `serial_packet_write` comes
next sends the frame.

`Disciplined` says of a log that at each of its entries the frames sent and the flags
raised add up to the packets accepted, that at most one flag is up, that none is up
where a byte is read or a response sent, and that a NAK follows a rejected packet and
nothing else.  `Inv` is the invariant that carries it through the functions, `Settled`
what is left of it between two bytes.

The log is written by the machine itself, so its entries are worth what they are compared
with.  `hears` is what a byte has to leave there: the byte, and behind it the packet where
the call of `serial_packet_read` that gets the byte returns success, a rejection where it
returns failure, and nothing otherwise.  `heard_run` finds exactly this in the log of every
run; the packets accepted and rejected are those of the parser.

## Main results

* `acknowledged` — the discipline, and the two tallies: what the log calls accepted is as often
  there as `serial_packet_read` returns success along the run, what it calls rejected as often
  as it returns failure.
* `acknowledged_get_property` — a run with a command that is accepted and answered, and with a
  packet that is spoilt on its way.
-/

namespace CannonCar.Kboot

open Trajectory

/-! ## Counting -/

namespace Event

/-- The frame that answers an accepted packet. -/
def frames : Event → ℕ
  | write .ack => 1
  | write .ackAbort => 1
  | _ => 0

/-- An accepted packet. -/
def accepts : Event → ℕ
  | accepted _ => 1
  | _ => 0

/-- The frame that answers a rejected packet. -/
def naks : Event → ℕ
  | write .nak => 1
  | _ => 0

/-- A rejected packet. -/
def rejects : Event → ℕ
  | rejected => 1
  | _ => 0

/-- The entries that say what has come in: the bytes, and the verdicts on packets. -/
def heard : Event → Bool
  | read _ => true
  | accepted _ => true
  | rejected => true
  | write _ => false
  | abort => false

theorem accepts_of_quiet : ∀ e : Event, e.heard = false → e.accepts = 0
  | read _, _ | rejected, _ | write _, _ | abort, _ => rfl

theorem rejects_of_quiet : ∀ e : Event, e.heard = false → e.rejects = 0
  | read _, _ | accepted _, _ | write _, _ | abort, _ => rfl

/-- The events before which nothing may be left pending: a byte read, a response. -/
def Settles : Event → Prop
  | read _ => True
  | write (.packet _) => True
  | _ => False

end Event

/-- How many entries of a log `what` counts. -/
def tally (what : Event → ℕ) (log : List Entry) : ℕ := (log.map fun e => what e.event).sum

@[simp] theorem tally_nil (what : Event → ℕ) : tally what [] = 0 := rfl

@[simp] theorem tally_cons (what : Event → ℕ) (e : Entry) (log : List Entry) :
    tally what (e :: log) = what e.event + tally what log := List.sum_cons

/-- The number of flags raised. -/
def flags (isAckNeeded isAckAbortNeeded : Bool) : ℕ := isAckNeeded.toNat + isAckAbortNeeded.toNat

theorem not_both_of_ack {ack abort : Bool} (down : ack = false) :
    ¬ (ack = true ∧ abort = true) := fun both => absurd both.1 (Bool.eq_false_iff.mp down)

theorem not_both_of_abort {ack abort : Bool} (down : abort = false) :
    ¬ (ack = true ∧ abort = true) := fun both => absurd both.2 (Bool.eq_false_iff.mp down)

/-- What holds at an entry, `before` being the log it was added to. -/
structure Point (e : Entry) (before : List Entry) : Prop where
  balance : tally Event.frames (e :: before) + flags e.isAckNeeded e.isAckAbortNeeded =
    tally Event.accepts (e :: before)
  single : ¬ (e.isAckNeeded = true ∧ e.isAckAbortNeeded = true)
  settled : e.event.Settles → e.isAckNeeded = false ∧ e.isAckAbortNeeded = false
  nak : e.event = .write .nak ↔ before.head?.map Entry.event = some .rejected

/-- Every entry of the log is in order. -/
def Disciplined (log : List Entry) : Prop := ∀ e before, e :: before <:+ log → Point e before

theorem disciplined_nil : Disciplined [] := by
  intro e before suffix
  exact absurd (List.suffix_nil.mp suffix) (List.cons_ne_nil _ _)

theorem disciplined_cons {e : Entry} {log : List Entry} (point : Point e log)
    (disciplined : Disciplined log) : Disciplined (e :: log) := by
  intro e' before suffix
  rcases List.suffix_cons_iff.mp suffix with same | earlier
  · obtain ⟨rfl, rfl⟩ := List.cons.inj same
    exact point
  · exact disciplined e' before earlier

theorem Disciplined.tail {e : Entry} {log : List Entry} (disciplined : Disciplined (e :: log)) :
    Disciplined log :=
  fun e' before suffix => disciplined e' before (suffix.trans (List.suffix_cons e log))

/-- Every rejected packet has had its NAK, but for one that has just been rejected. -/
theorem tally_naks {log : List Entry} (disciplined : Disciplined log) :
    tally Event.naks log + (if log.head?.map Entry.event = some .rejected then 1 else 0) =
      tally Event.rejects log := by
  induction log with
  | nil => rfl
  | cons e log ih =>
      have nak := (disciplined e log List.suffix_rfl).nak
      have last : (e :: log).head?.map Entry.event = some e.event := rfl
      rw [tally_cons, tally_cons, ← ih disciplined.tail, last]
      -- a NAK pays for the rejected packet the induction hypothesis has left over
      by_cases isNak : e.event = .write .nak
      · rw [if_pos (nak.mp isNak), isNak, if_neg (by decide)]
        simp only [Event.naks, Event.rejects]
        omega
      · rw [if_neg (fun rejected => isNak (nak.mpr rejected))]
        have none : e.event.naks = 0 := by
          unfold Event.naks
          split
          · exact absurd ‹_› isNak
          · rfl
        by_cases isRejected : e.event = .rejected
        · rw [isRejected, if_pos rfl]
          simp only [Event.naks, Event.rejects]
          omega
        · have quiet : e.event.rejects = 0 := by
            unfold Event.rejects
            split
            · exact absurd ‹_› isRejected
            · rfl
          rw [none, quiet, if_neg fun same => isRejected (Option.some.inj same)]
          omega

/-! ## The invariant -/

namespace Boot

/-- Nothing is missing from the log so far. -/
structure Inv (b : Boot) : Prop where
  disciplined : Disciplined b.log
  balance : tally Event.frames b.log + flags b.serial.isAckNeeded b.serial.isAckAbortNeeded =
    tally Event.accepts b.log
  answered : b.log.head?.map Entry.event ≠ some .rejected

section Inv

variable {b : Boot}

/-- An event that pays for what it does to the flags. -/
theorem Inv.emit (inv : b.Inv) {b' : Boot} (log : b'.log = b.log) {e : Event}
    (pays : e.frames + flags b'.serial.isAckNeeded b'.serial.isAckAbortNeeded =
      flags b.serial.isAckNeeded b.serial.isAckAbortNeeded + e.accepts)
    (single : ¬ (b'.serial.isAckNeeded = true ∧ b'.serial.isAckAbortNeeded = true))
    (settled : e.Settles → b'.serial.isAckNeeded = false ∧ b'.serial.isAckAbortNeeded = false)
    (plain : e ≠ .write .nak ∧ e ≠ .rejected) : (b'.emit e).Inv := by
  have balance := inv.balance
  have balance' : e.frames + tally Event.frames b.log +
      flags b'.serial.isAckNeeded b'.serial.isAckAbortNeeded =
        e.accepts + tally Event.accepts b.log := by omega
  refine ⟨?_, ?_, ?_⟩
  · rw [Boot.emit, log]
    refine disciplined_cons ⟨?_, single, settled, ?_⟩ inv.disciplined
    · rw [tally_cons, tally_cons]
      exact balance'
    · exact iff_of_false plain.1 inv.answered
  · rw [Boot.emit, log, tally_cons, tally_cons]
    exact balance'
  · exact fun rejected => plain.2 (Option.some.inj rejected)

/-- What is not logged and touches no flag changes nothing. -/
theorem Inv.congr (inv : b.Inv) {b' : Boot} (log : b'.log = b.log)
    (ack : b'.serial.isAckNeeded = b.serial.isAckNeeded)
    (abort : b'.serial.isAckAbortNeeded = b.serial.isAckAbortNeeded) : b'.Inv := by
  refine ⟨?_, ?_, ?_⟩
  · rw [log]
    exact inv.disciplined
  · rw [log, ack, abort]
    exact inv.balance
  · rw [log]
    exact inv.answered

/-- The acknowledgement due is sent. -/
theorem Inv.flushAck (inv : b.Inv) (single : b.serial.isAckNeeded = true →
    b.serial.isAckAbortNeeded = false) : b.flushAck.Inv := by
  rw [flushAck_eq]
  split_ifs with due
  · refine inv.emit ?_ ?_ ?_ False.elim ⟨nofun, nofun⟩
    · rfl
    · rw [due, single due]
      rfl
    · exact not_both_of_ack rfl
  · exact inv

/-- The abort due is sent. -/
theorem Inv.flushAbort (inv : b.Inv) (single : b.serial.isAckNeeded = false) :
    b.flushAbort.Inv := by
  unfold Boot.flushAbort
  split_ifs with due
  · refine inv.emit ?_ ?_ ?_ False.elim ⟨nofun, nofun⟩
    · rfl
    · rw [due, single]
      rfl
    · exact not_both_of_abort rfl
  · exact inv

/-- A response is sent after what was due. -/
theorem Inv.serialPacketWrite (inv : b.Inv) (single : b.serial.isAckNeeded = true →
      b.serial.isAckAbortNeeded = false) (payload : List (BitVec 8)) (next : Next) :
    (b.serialPacketWrite payload next).Inv := by
  have flushed : b.flushAck.flushAbort.Inv :=
    (inv.flushAck single).flushAbort (by rw [flushAck_serial])
  have ack : b.flushAck.flushAbort.serial.isAckNeeded = false := by
    rw [flushAbort_serial, flushAck_serial]
  have abort : b.flushAck.flushAbort.serial.isAckAbortNeeded = false := by
    rw [flushAbort_serial]
  rw [serialPacketWrite_eq]
  refine flushed.emit ?_ ?_ ?_ (fun _ => ⟨ack, abort⟩) ⟨nofun, nofun⟩
  · rfl
  · exact Nat.zero_add _
  · exact not_both_of_ack ack

end Inv

/-- Between two bytes no abort is due, and nothing at all while the host's
acknowledgement is awaited. -/
structure Settled (b : Boot) : Prop where
  inv : b.Inv
  abort : b.serial.isAckAbortNeeded = false
  ack : b.wait ≠ .packet → b.serial.isAckNeeded = false

section Settled

variable {b : Boot}

/-- A response settles everything. -/
theorem Settled.of_write (inv : b.Inv) (single : b.serial.isAckNeeded = true →
      b.serial.isAckAbortNeeded = false) (payload : List (BitVec 8)) (next : Next) :
    (b.serialPacketWrite payload next).Settled :=
  ⟨inv.serialPacketWrite single payload next, (serialPacketWrite_flags b payload next).2,
    fun _ => (serialPacketWrite_flags b payload next).1⟩

/-- Going back to the loop leaves an acknowledgement for later. -/
theorem Settled.of_loop (inv : b.Inv) (abort : b.serial.isAckAbortNeeded = false)
    (wait : b.wait = .packet) : b.Settled :=
  ⟨inv, abort, fun other => absurd wait other⟩

/-- An event that is none of the four counted ones leaves the flags as they are. -/
theorem Inv.pass (inv : b.Inv) {e : Event} (ack : b.serial.isAckNeeded = false)
    (abort : b.serial.isAckAbortNeeded = false) (free : e.frames = 0 ∧ e.accepts = 0)
    (plain : e ≠ .write .nak ∧ e ≠ .rejected) : (b.emit e).Inv := by
  refine inv.emit ?_ ?_ ?_ (fun _ => ⟨ack, abort⟩) plain
  · rfl
  · rw [free.1, free.2]
    exact Nat.zero_add _
  · exact not_both_of_ack ack

/-- A byte read while a packet is awaited. -/
theorem Settled.afterRead (settled : b.Settled) (tmp : BitVec 8) : (b.afterRead tmp).Inv := by
  have flushed : b.flushAck.Inv := settled.inv.flushAck fun _ => settled.abort
  have read : (b.flushAck.emit (.read tmp)).Inv :=
    flushed.pass (by rw [flushAck_serial]) (by rw [flushAck_serial]; exact settled.abort)
      ⟨rfl, rfl⟩ ⟨nofun, nofun⟩
  refine read.congr rfl ?_ ?_
  · rw [emit_serial, flushAck_serial]
    rfl
  · rw [emit_serial, flushAck_serial]
    rfl

/-- A packet accepted raises the flag that stands for its acknowledgement. -/
theorem Inv.accept (inv : b.Inv) (ack : b.serial.isAckNeeded = false)
    (abort : b.serial.isAckAbortNeeded = false) : b.accept.Inv := by
  refine inv.emit ?_ ?_ ?_ False.elim ⟨nofun, nofun⟩
  · rfl
  · show _ + flags true b.serial.isAckAbortNeeded = _
    rw [ack, abort]
    rfl
  · exact not_both_of_abort abort

/-- A packet rejected has its NAK at once. -/
theorem Inv.reject (inv : b.Inv) (ack : b.serial.isAckNeeded = false) : b.reject.Inv := by
  -- between the two entries the rejected packet is unanswered, so `Inv` holds only after both
  have balance := inv.balance
  have single : ¬ (b.serial.isAckNeeded = true ∧ b.serial.isAckAbortNeeded = true) :=
    not_both_of_ack ack
  have rejected : Point ⟨.rejected, b.serial.isAckNeeded, b.serial.isAckAbortNeeded⟩ b.log := by
    refine ⟨?_, single, False.elim, iff_of_false nofun inv.answered⟩
    rw [tally_cons, tally_cons]
    exact (congrArg (· + _) (Nat.zero_add _)).trans (balance.trans (Nat.zero_add _).symm)
  have answered : Point ⟨.write .nak, b.serial.isAckNeeded, b.serial.isAckAbortNeeded⟩
      (b.emit .rejected).log := by
    refine ⟨?_, single, False.elim, iff_of_true rfl rfl⟩
    rw [tally_cons, tally_cons]
    exact (congrArg (· + _) (Nat.zero_add _)).trans (rejected.balance.trans (Nat.zero_add _).symm)
  exact ⟨disciplined_cons answered (disciplined_cons rejected inv.disciplined), answered.balance,
    nofun⟩

end Settled

section Handlers

variable {b : Boot} (target : Target)

/-- The flag turned into the other one. -/
theorem Inv.dataPhaseAbort (inv : b.Inv) (ack : b.serial.isAckNeeded = true)
    (abort : b.serial.isAckAbortNeeded = false) : b.dataPhaseAbort.Inv := by
  refine inv.emit ?_ ?_ ?_ False.elim ⟨nofun, nofun⟩
  · rfl
  · rw [ack, abort]
    rfl
  · exact not_both_of_ack rfl

/-- A data phase that ends, or does not. -/
theorem Inv.dataPhaseEnd (inv : b.Inv) (abort : b.serial.isAckAbortNeeded = false)
    (wait : b.wait = .packet) : b.dataPhaseEnd.Settled := by
  unfold Boot.dataPhaseEnd
  split_ifs
  · exact .of_loop inv abort wait
  · exact .of_write inv (fun _ => abort) _ _

theorem Inv.handleDataPhase (inv : b.Inv) (ack : b.serial.isAckNeeded = true)
    (abort : b.serial.isAckAbortNeeded = false) (wait : b.wait = .packet) :
    (b.handleDataPhase target).Settled := by
  simp only [Boot.handleDataPhase, finalizeDataPhase, sendGenericResponse]
  split_ifs
  -- programming fails, programming succeeds, or nothing had been asked for
  · refine .of_write (Inv.dataPhaseAbort (inv.congr ?_ ?_ ?_) ?_ ?_) ?_ _ _
    · rfl
    · rfl
    · rfl
    · exact ack
    · exact abort
    · exact fun due => absurd due Bool.false_ne_true
  · refine Inv.dataPhaseEnd (inv.congr ?_ ?_ ?_) ?_ ?_
    · rfl
    · rfl
    · rfl
    · exact abort
    · exact wait
  · exact inv.dataPhaseEnd abort wait

theorem Inv.handleFlashEraseRegion (inv : b.Inv) (abort : b.serial.isAckAbortNeeded = false) :
    (b.handleFlashEraseRegion target).Settled := by
  simp only [Boot.handleFlashEraseRegion, sendGenericResponse]
  split_ifs
  · exact .of_write inv (fun _ => abort) _ _
  · refine .of_write (inv.congr ?_ ?_ ?_) ?_ _ _
    · rfl
    · rfl
    · rfl
    · exact fun _ => abort

/-- **Each packet is settled by the handler it goes to**, or left to the loop. -/
theorem Inv.handlePacket (inv : b.Inv) (ack : b.serial.isAckNeeded = true)
    (abort : b.serial.isAckAbortNeeded = false) (wait : b.wait = .packet) :
    (b.handlePacket target).Settled := by
  simp only [Boot.handlePacket, handleGetProperty, handleWriteMemory, handleExecute, handleReset,
    sendGenericResponse]
  cases b.state with
  | command =>
      dsimp only
      split_ifs
      · exact .of_write inv (fun _ => abort) _ _
      · exact inv.handleFlashEraseRegion target abort
      · refine .of_write (inv.congr ?_ ?_ ?_) ?_ _ _
        · rfl
        · rfl
        · rfl
        · exact fun _ => abort
      · exact .of_write inv (fun _ => abort) _ _
      · exact .of_write inv (fun _ => abort) _ _
      · exact .of_loop inv abort wait
  | data => exact inv.handleDataPhase target ack abort wait

end Handlers

/-! ## Runs -/

section Runs

variable (target : Target) {b : Boot}

theorem settled_init (mem : Flash) : (init mem).Settled :=
  .of_loop ⟨disciplined_nil, rfl, nofun⟩ rfl rfl

/-- A byte while a packet is awaited. -/
theorem Settled.runLoop (settled : b.Settled) (wait : b.wait = .packet) (tmp : BitVec 8) :
    (b.runLoop target tmp).Settled := by
  have read := settled.afterRead tmp
  have wait' : (b.afterRead tmp).wait = .packet := (afterRead_wait b tmp).trans wait
  -- once the byte has been read no flag is up, which is what each verdict starts from
  rcases b.runLoop_cases target tmp with ⟨-, run⟩ | ⟨-, run⟩ | ⟨-, run | run⟩
  · rw [run]
    exact (read.accept rfl settled.abort).handlePacket target rfl settled.abort wait'
  · rw [run]
    exact .of_loop (read.reject rfl) settled.abort wait'
  · rw [run]
    exact .of_loop read settled.abort wait'
  · rw [run]
    exact .of_loop (read.pass rfl settled.abort ⟨rfl, rfl⟩ ⟨nofun, nofun⟩) settled.abort wait'

/-- A byte of the host's acknowledgement. -/
theorem Settled.read (settled : b.Settled) (wait : b.wait ≠ .packet) (tmp : BitVec 8) :
    (b.emit (.read tmp)).Inv :=
  settled.inv.pass (settled.ack wait) settled.abort ⟨rfl, rfl⟩ ⟨nofun, nofun⟩

/-- **One byte.** -/
theorem settled_step (settled : b.Settled) (tmp : BitVec 8) : (b.step target tmp).Settled := by
  unfold Boot.step
  split
  case h_1 wait => exact settled.runLoop target wait tmp
  case h_2 next wait =>
    have other : b.wait ≠ .packet := by
      rw [wait]
      nofun
    exact ⟨(settled.read other tmp).congr rfl rfl rfl, settled.abort, fun _ => settled.ack other⟩
  case h_3 next wait =>
    have other : b.wait ≠ .packet := by
      rw [wait]
      nofun
    have read := settled.read other tmp
    unfold Boot.resume
    cases next with
    | loop state => exact .of_loop (read.congr rfl rfl rfl) settled.abort rfl
    | reset => exact ⟨read.congr rfl rfl rfl, settled.abort, fun _ => settled.ack other⟩
    | jump sp pc => exact ⟨read.congr rfl rfl rfl, settled.abort, fun _ => settled.ack other⟩
  case h_4 => exact settled

theorem settled_run (mem : Flash) (bytes : List (BitVec 8)) :
    (run (Boot.step target) (init mem) bytes).Settled :=
  run_invariant (I := Settled) (fun _ tmp settled => settled_step target settled tmp)
    (settled_init mem) bytes

/-! ### Against the verdicts of the parser -/

/-- What the call of `serial_packet_read` that gets the byte returns; the bytes of the host's
acknowledgement go to other calls of `read_byte`. -/
def returned (b : Boot) (tmp : BitVec 8) : Option Status :=
  if b.wait = .packet then some (b.serial.serialPacketRead b.state.packetType tmp).2.2 else none

/-- What a byte has to leave in the log: itself, and the verdict it completes. -/
def hears (b : Boot) (tmp : BitVec 8) : List Event :=
  match b.wait with
  | .packet =>
      let r := b.serial.serialPacketRead b.state.packetType tmp
      let p := r.1.parser.readPacket
      if r.2.2 = .success then [.read tmp, .accepted (p.data p.length)]
      else if r.2.2 = .fail then [.read tmp, .rejected]
      else [.read tmp]
  | .ackStart _ | .ackType _ => [.read tmp]
  | .left => []

/-- The bytes and verdicts in the log, the first one first. -/
def heard (b : Boot) : List Event := (b.log.reverse.map Entry.event).filter Event.heard

theorem heard_emit (b : Boot) (e : Event) :
    (b.emit e).heard = b.heard ++ if e.heard then [e] else [] := by
  simp only [heard, emit, List.reverse_cons, List.map_append, List.map_singleton,
    List.filter_append, List.filter_singleton, Bool.cond_eq_ite]

theorem heard_emit_of_quiet (b : Boot) {e : Event} (quiet : e.heard = false) :
    (b.emit e).heard = b.heard := by
  rw [heard_emit, quiet]
  exact List.append_nil _

theorem heard_congr {b b' : Boot} (log : b'.log = b.log) : b'.heard = b.heard := by
  rw [heard, log, heard]

@[simp] theorem heard_flushAck (b : Boot) : b.flushAck.heard = b.heard := by
  rw [flushAck_eq]
  split_ifs
  · exact heard_emit_of_quiet _ rfl
  · rfl

@[simp] theorem heard_flushAbort (b : Boot) : b.flushAbort.heard = b.heard := by
  unfold flushAbort
  split_ifs
  · exact heard_emit_of_quiet _ rfl
  · rfl

/-- A response says nothing about packets received. -/
@[simp] theorem heard_serialPacketWrite (b : Boot) (payload : List (BitVec 8)) (next : Next) :
    (b.serialPacketWrite payload next).heard = b.heard := by
  rw [serialPacketWrite_eq, heard_emit_of_quiet _ rfl]
  exact (heard_congr rfl).trans ((heard_flushAbort _).trans (heard_flushAck _))

theorem heard_dataPhaseAbort (b : Boot) : b.dataPhaseAbort.heard = b.heard :=
  heard_emit_of_quiet _ rfl

theorem heard_handleDataPhase (b : Boot) : (b.handleDataPhase target).heard = b.heard := by
  have ends : ∀ b : Boot, b.dataPhaseEnd.heard = b.heard := by
    intro b
    unfold dataPhaseEnd
    split_ifs
    · rfl
    · exact heard_serialPacketWrite ..
  simp only [handleDataPhase, finalizeDataPhase, sendGenericResponse]
  split_ifs
  · rw [heard_serialPacketWrite, heard_dataPhaseAbort]
    rfl
  · exact ends _
  · exact ends _

/-- What a packet asks for is done without another verdict. -/
theorem heard_handlePacket (b : Boot) : (b.handlePacket target).heard = b.heard := by
  simp only [handlePacket, handleGetProperty, handleWriteMemory, handleExecute, handleReset,
    handleFlashEraseRegion, sendGenericResponse]
  cases b.state with
  | command =>
      dsimp only
      split_ifs <;> first | rfl | exact heard_serialPacketWrite ..
  | data => exact heard_handleDataPhase target b

theorem heard_afterRead (b : Boot) (tmp : BitVec 8) :
    (b.afterRead tmp).heard = b.heard ++ [.read tmp] := by
  have read : (b.flushAck.emit (.read tmp)).heard = b.heard ++ [.read tmp] := by
    rw [heard_emit, heard_flushAck]
    rfl
  exact (heard_congr rfl).trans read

/-- A byte that completes a call of `serial_packet_read`, or does not. -/
theorem heard_runLoop (b : Boot) (wait : b.wait = .packet) (tmp : BitVec 8) :
    (b.runLoop target tmp).heard = b.heard ++ b.hears tmp := by
  have status := b.serial.serialPacketRead_status b.state.packetType tmp
  have parser := b.serial.parser_serialPacketRead b.state.packetType tmp
  have hears : b.hears tmp =
      if b.verdict tmp = .success then
        [.read tmp, .accepted ((b.afterRead tmp).serial.parser.readPacket.data
          (b.afterRead tmp).serial.parser.readPacket.length)]
      else if b.verdict tmp = .fail then [.read tmp, .rejected] else [.read tmp] := by
    simp only [Boot.hears, wait]
    rw [status, parser]
    rfl
  rw [hears]
  rcases b.runLoop_cases target tmp with ⟨verdict, run⟩ | ⟨verdict, run⟩ | ⟨verdict, run | run⟩
  · rw [run, heard_handlePacket, if_pos verdict, accept, heard_emit]
    have read : ((b.afterRead tmp)).heard = b.heard ++ [.read tmp] := heard_afterRead b tmp
    exact (congrArg (· ++ _) read).trans (List.append_assoc ..)
  · rw [run, verdict, if_neg (by decide), if_pos rfl, reject, heard_emit_of_quiet _ rfl,
      heard_emit, heard_afterRead]
    exact List.append_assoc ..
  · rw [run, verdict, if_neg (by decide), if_neg (by decide), heard_afterRead]
  · rw [run, verdict, if_neg (by decide), if_neg (by decide), heard_emit_of_quiet _ rfl,
      heard_afterRead]

/-- **One byte** leaves in the log what it has to. -/
theorem heard_step (b : Boot) (tmp : BitVec 8) :
    (b.step target tmp).heard = b.heard ++ b.hears tmp := by
  have read : (b.emit (.read tmp)).heard = b.heard ++ [.read tmp] := heard_emit _ _
  cases wait : b.wait with
  | packet =>
      have step : b.step target tmp = b.runLoop target tmp := by simp only [Boot.step, wait]
      rw [step, heard_runLoop target b wait]
  | ackStart next =>
      simp only [Boot.step, Boot.hears, wait]
      exact (heard_congr rfl).trans read
  | ackType next =>
      simp only [Boot.step, Boot.hears, wait]
      unfold Boot.resume
      cases next <;> exact (heard_congr rfl).trans read
  | left =>
      simp only [Boot.step, Boot.hears, wait]
      exact (List.append_nil _).symm

/-- **The log hears what the parser says**, byte for byte. -/
theorem heard_run (mem : Flash) (bytes : List (BitVec 8)) :
    (run (Boot.step target) (init mem) bytes).heard =
      (outputs (Boot.step target) hears (init mem) bytes).flatten :=
  run_appends (heard_step target) (init mem) bytes

/-- What is counted in the log is counted among the bytes and verdicts. -/
theorem tally_eq (b : Boot) {what : Event → ℕ} (quiet : ∀ e : Event, e.heard = false → what e = 0) :
    tally what b.log = (b.heard.map what).sum := by
  rw [heard, tally]
  induction b.log with
  | nil => rfl
  | cons e log ih =>
      rw [List.map_cons, List.sum_cons, ih, List.reverse_cons, List.map_append, List.filter_append,
        List.map_append, List.sum_append, add_comm]
      congr 1
      cases listens : e.event.heard
      · simp [listens, quiet]
      · simp [listens]

/-- What is counted grows by what a byte has to leave. -/
theorem tally_step (b : Boot) (tmp : BitVec 8) {what : Event → ℕ}
    (quiet : ∀ e : Event, e.heard = false → what e = 0) :
    tally what (b.step target tmp).log = tally what b.log + ((b.hears tmp).map what).sum := by
  rw [tally_eq _ quiet, tally_eq _ quiet, heard_step, List.map_append, List.sum_append]

theorem sum_hears_accepts (b : Boot) (tmp : BitVec 8) :
    ((b.hears tmp).map Event.accepts).sum = if b.returned tmp == some .success then 1 else 0 := by
  unfold hears returned
  cases b.wait
  case packet =>
    simp only [if_pos]
    generalize (b.serial.serialPacketRead b.state.packetType tmp).2.2 = status
    cases status <;> rfl
  all_goals rfl

theorem sum_hears_rejects (b : Boot) (tmp : BitVec 8) :
    ((b.hears tmp).map Event.rejects).sum = if b.returned tmp == some .fail then 1 else 0 := by
  unfold hears returned
  cases b.wait
  case packet =>
    simp only [if_pos]
    generalize (b.serial.serialPacketRead b.state.packetType tmp).2.2 = status
    cases status <;> rfl
  all_goals rfl

/-- What every byte counts by what the call that gets it returns. -/
theorem tally_run_of_step {what : Event → ℕ} {v : Option Status}
    (counts : ∀ (b : Boot) (tmp : BitVec 8), tally what (b.step target tmp).log =
      tally what b.log + if b.returned tmp == v then 1 else 0) (mem : Flash)
    (bytes : List (BitVec 8)) :
    tally what (run (Boot.step target) (init mem) bytes).log =
      (outputs (Boot.step target) returned (init mem) bytes).count v := by
  have counted := run_counts (fun b : Boot => tally what b.log) counts (init mem) bytes
  have start : tally what (init mem).log = 0 := tally_nil what
  rwa [start, Nat.zero_add] at counted

/-- **Acknowledgement discipline.** In every run the log is in order: at each of its
entries, and at its end, the ACK and ACK-ABORT frames sent and the flags raised are as
many as the packets accepted, one flag at most is up, none is where a byte is read or a
response sent, and the NAK frames are the answers to the packets rejected, one each.  The
packets accepted are those for which `serial_packet_read` returned success, the packets
rejected those that failed their CRC there, each entered behind the byte that completed
it. -/
theorem acknowledged (mem : Flash) (bytes : List (BitVec 8)) :
    let b := run (Boot.step target) (init mem) bytes
    let statuses := outputs (Boot.step target) returned (init mem) bytes
    Disciplined b.log ∧
      tally Event.frames b.log + flags b.serial.isAckNeeded b.serial.isAckAbortNeeded =
        tally Event.accepts b.log ∧
      ¬ (b.serial.isAckNeeded = true ∧ b.serial.isAckAbortNeeded = true) ∧
      tally Event.naks b.log = tally Event.rejects b.log ∧
      tally Event.accepts b.log = statuses.count (some .success) ∧
      tally Event.rejects b.log = statuses.count (some .fail) ∧
      b.heard = (outputs (Boot.step target) hears (init mem) bytes).flatten := by
  intro b statuses
  have settled : b.Settled := settled_run target mem bytes
  refine ⟨settled.inv.disciplined, settled.inv.balance, ?_, ?_, ?_, ?_, heard_run target mem bytes⟩
  · exact not_both_of_abort settled.abort
  · have naks := tally_naks settled.inv.disciplined
    rwa [if_neg settled.inv.answered, Nat.add_zero] at naks
  · rw [tally_run_of_step target (fun b tmp => ?_) mem bytes]
    rw [tally_step target b tmp Event.accepts_of_quiet, sum_hears_accepts]
  · rw [tally_run_of_step target (fun b tmp => ?_) mem bytes]
    rw [tally_step target b tmp Event.rejects_of_quiet, sum_hears_rejects]

/-- A property request, acknowledged and answered, and the same request with its sum in the
header spoilt. -/
theorem acknowledged_get_property :
    let target : Target := ⟨.FTFL, 0x80000, 0x1fff0000, 0x20000, 0, fun _ => 0x80⟩
    let request := encodePacket kFramingPacketTypeCommand
      ([kCommandTagGetProperty, 0, 0, 1] ++ wordBytes 1)
    let spoilt := request.set 4 (request.getD 4 0 ^^^ 1)
    let bytes := request ++ Frame.ack.bytes ++ spoilt
    let b := run (Boot.step target) (init fun _ => BitVec.allOnes 32) bytes
    Disciplined b.log ∧ tally Event.accepts b.log = 1 ∧ tally Event.frames b.log = 1 ∧
      tally Event.rejects b.log = 1 ∧ tally Event.naks b.log = 1 := by
  intro target request spoilt bytes b
  obtain ⟨disciplined, balance, -, naks, accepts, rejects, -⟩ :=
    acknowledged target (fun _ => BitVec.allOnes 32) bytes
  have success : (outputs (Boot.step target) returned (init fun _ => BitVec.allOnes 32)
      bytes).count (some .success) = 1 := by decide +kernel
  have fail : (outputs (Boot.step target) returned (init fun _ => BitVec.allOnes 32)
      bytes).count (some .fail) = 1 := by decide +kernel
  have down : flags b.serial.isAckNeeded b.serial.isAckAbortNeeded = 0 := by decide +kernel
  have one : tally Event.accepts b.log = 1 := accepts.trans success
  have none : tally Event.rejects b.log = 1 := rejects.trans fail
  exact ⟨disciplined, one, by rw [← one, ← balance, down, Nat.add_zero], none, naks.trans none⟩

end Runs

end Boot

end CannonCar.Kboot
