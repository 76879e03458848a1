import CannonCar.Kboot.Bootloader
import CannonCar.Kboot.FlashBytes

/-!
# WriteMemory

A `WriteMemory` command opens a transfer: data packets follow until the count is used up
or one of them cannot be programmed, and a second response closes it.

`Traffic` says what of it has gone over the line between two states of the log, the
responses sent and the payloads accepted.  A transfer is a `Job`; it is `Pending` while
the flash holds the payloads so far, laid over what was there before, and `Closed` once
the response is out.  Whatever the host sends, one of the two holds, and the transfer is
back in the command phase only when it is closed.

## What is load-bearing

* A `Job` keeps the address and the count the command asked for, and the flash and the log of the
  moment it was accepted.  `Pending` says that the data `ps` has been taken and lies in the
  flash from that address on, and what is left of the count; where the machine waits is said
  apart (`Bound`), since the host's acknowledgement comes in between.
* The result is about the first return to the command phase, so the run is cut there
  (`Returned`); before it every byte keeps the invariant or leads to the final response.
* A failure closes the transfer too: the status goes into the response, and `Done` asks nothing
  of the flash then.
* Rejected packets are neither counted nor programmed, and noise is dropped; both leave the
  transfer as it is.
-/

namespace CannonCar.Kboot

open Trajectory

/-! ## Traffic -/

namespace Event

/-- The response an event is. -/
def responses : Event → List (List (BitVec 8))
  | write (.packet bytes) => [bytes]
  | _ => []

/-- The payload an event brings. -/
def payload : Event → List (BitVec 8)
  | accepted payload => payload
  | _ => []

end Event

/-- The responses of a log, in the order they were sent. -/
def responses : List Entry → List (List (BitVec 8))
  | [] => []
  | e :: log => responses log ++ e.event.responses

/-- The payloads of a log, in the order they were accepted. -/
def payloads : List Entry → List (BitVec 8)
  | [] => []
  | e :: log => payloads log ++ e.event.payload

/-- From `old` to `new` the responses `rs` were sent and the data `ps` was accepted. -/
def Traffic (old new : List Entry) (rs : List (List (BitVec 8))) (ps : List (BitVec 8)) : Prop :=
  ∃ entries, new = entries ++ old ∧ responses entries = rs ∧ payloads entries = ps

namespace Traffic

variable {old mid new : List Entry} {rs rs' : List (List (BitVec 8))} {ps ps' : List (BitVec 8)}

theorem refl (log : List Entry) : Traffic log log [] [] := ⟨[], rfl, rfl, rfl⟩

theorem responses_append (late early : List Entry) :
    responses (late ++ early) = responses early ++ responses late := by
  induction late with
  | nil => exact (List.append_nil _).symm
  | cons e late ih =>
      rw [List.cons_append, responses, responses, ih, List.append_assoc]

theorem payloads_append (late early : List Entry) :
    payloads (late ++ early) = payloads early ++ payloads late := by
  induction late with
  | nil => exact (List.append_nil _).symm
  | cons e late ih =>
      rw [List.cons_append, payloads, payloads, ih, List.append_assoc]

/-- What happens later comes behind. -/
theorem trans (first : Traffic old mid rs ps) (second : Traffic mid new rs' ps') :
    Traffic old new (rs ++ rs') (ps ++ ps') := by
  obtain ⟨early, rfl, rfl, rfl⟩ := first
  obtain ⟨late, rfl, rfl, rfl⟩ := second
  exact ⟨late ++ early, (List.append_assoc _ _ _).symm, responses_append late early,
    payloads_append late early⟩

/-- What is neither a response nor data does not count. -/
theorem quiet (first : Traffic old mid rs ps) (second : Traffic mid new [] []) :
    Traffic old new rs ps := by
  have both := first.trans second
  rwa [List.append_nil, List.append_nil] at both

theorem emit (b : Boot) (e : Event) : Traffic b.log (b.emit e).log e.responses e.payload :=
  ⟨[⟨e, b.serial.isAckNeeded, b.serial.isAckAbortNeeded⟩], rfl, List.nil_append _,
    List.nil_append _⟩

theorem flushAck (b : Boot) : Traffic b.log b.flushAck.log [] [] := by
  rw [Boot.flushAck_eq]
  split_ifs
  · exact emit _ _
  · exact refl _

theorem flushAbort (b : Boot) : Traffic b.log b.flushAbort.log [] [] := by
  unfold Boot.flushAbort
  split_ifs
  · exact emit _ _
  · exact refl _

theorem serialPacketWrite (b : Boot) (payload : List (BitVec 8)) (next : Next) :
    Traffic b.log (b.serialPacketWrite payload next).log [(b.response payload).bytes] [] := by
  have flushed := (flushAck b).quiet (flushAbort b.flushAck)
  rw [Boot.serialPacketWrite_eq]
  exact flushed.trans (emit { b.flushAck.flushAbort.setWritePacket (b.response payload) with
    wait := .ackStart next } _)

theorem afterRead (b : Boot) (tmp : BitVec 8) : Traffic b.log (b.afterRead tmp).log [] [] :=
  (flushAck b).quiet (emit b.flushAck (.read tmp))

theorem accept (b : Boot) : Traffic b.log b.accept.log [] (b.packet.data b.packet.length) :=
  emit { b with isActive := true, serial := { b.serial with isAckNeeded := true } } _

theorem reject (b : Boot) : Traffic b.log b.reject.log [] [] :=
  (emit b .rejected).quiet (emit (b.emit .rejected) (.write .nak))

theorem dataPhaseAbort (b : Boot) : Traffic b.log b.dataPhaseAbort.log [] [] :=
  emit { b with serial := { b.serial with isAckAbortNeeded := true, isAckNeeded := false } } .abort

end Traffic

/-! ## A response as a packet -/

namespace SerialPacket

theorem length_data (p : SerialPacket) (n : ℕ) : (p.data n).length = n := by
  rw [data, List.length_map, List.length_range]

theorem data_put (p : SerialPacket) (payload : List (BitVec 8)) :
    (p.put payload).data payload.length = payload := by
  refine List.ext_getElem (length_data _ _) fun i inside inside' => ?_
  · simp only [data, put, List.getElem_map, List.getElem_range]
    exact List.getD_eq_getElem _ _ inside'

/-- The packet `serial_packet_write` sends is its payload encoded, where the payload has
the length its fourth byte says. -/
theorem bytes_sealed (p : SerialPacket) {payload : List (BitVec 8)}
    (length : payload.length = (1 + (payload.getD 3 0).toNat) * 4) :
    (p.put payload).sealed.bytes = encodePacket kFramingPacketTypeCommand payload := by
  have fourth : 3 < payload.length := by omega
  have sameLength : (p.put payload).responseLength = payload.length := by
    have put : (p.put payload).payload 3 = payload.getD 3 (p.payload 3) := rfl
    rw [length, responseLength, put, List.getD_eq_getElem _ _ fourth,
      List.getD_eq_getElem _ _ fourth]
  have fits : payload.length < 2 ^ 16 := by
    have byte := (payload.getD 3 0).isLt
    omega
  generalize isHalf : BitVec.ofNat 16 payload.length = h
  have value : h.toNat = payload.length := by
    rw [← isHalf, BitVec.toNat_ofNat, Nat.mod_eq_of_lt fits]
  -- the payload is the same whatever stands before it
  have same : ∀ start type len crc,
      data ⟨start, type, len, crc, (p.put payload).payload⟩ payload.length = payload :=
    fun _ _ _ _ => data_put p payload
  have isSealed : (p.put payload).sealed = { p.put payload with
      startByte := kFramingPacketStartByte
      packetType := kFramingPacketTypeCommand
      lengthInBytes := putHalf p.lengthInBytes h
      crc16 := putHalf p.crc16 (crc16Update (crc16Update 0
        ([kFramingPacketStartByte, kFramingPacketTypeCommand] ++ halfBytes h)) payload) } := by
    simp only [sealed, calculateCrc, SerialPacket.length, half_putHalf, sameLength, isHalf, value,
      header]
    rw [same]
    rfl
  have sameLength' : (p.put payload).sealed.responseLength = payload.length := sameLength
  rw [bytes, sameLength', isSealed, same, encodePacket, isHalf]
  rfl

end SerialPacket

/-- A generic response says its length. -/
theorem length_genericResponse (commandTag : BitVec 8) (status : Status) :
    (genericResponse commandTag status).length =
      (1 + ((genericResponse commandTag status).getD 3 0).toNat) * 4 := rfl

/-- The final response of a transfer. -/
def finalResponse (status : Status) : List (BitVec 8) :=
  encodePacket kFramingPacketTypeCommand (genericResponse kCommandTagWriteMemory status)

/-! ## Transfers -/

/-- A transfer: what the command asked for, and the flash and the log when it was
accepted. -/
structure Job where
  address : BitVec 32
  count : BitVec 32
  mem : Flash
  log : List Entry

namespace Job

/-- The range is in 24 bits and erased. -/
structure Erased (j : Job) : Prop where
  inside : j.address.toNat + j.count.toNat ≤ 2 ^ 24
  erased : ∀ a, j.address.toNat ≤ a → a < j.address.toNat + j.count.toNat →
    flashByte j.mem a = 0xFF

/-- The data `ps` has been written, and all else is as it was. -/
def Written (j : Job) (ps : List (BitVec 8)) (f : Flash) : Prop :=
  flashByte f = overlay j.address.toNat ps (flashByte j.mem)

/-- What the transfer has come to in a state, `ps` being written. -/
structure Pending (j : Job) (ps : List (BitVec 8)) (b : Boot) : Prop where
  address : b.address.toNat = j.address.toNat + ps.length
  count : b.count.toNat + ps.length = j.count.toNat
  written : j.Written ps b.flash.mem

/-- One response has been sent, and it reports an error or the data asked for is in the
flash. -/
def Done (j : Job) (b : Boot) : Prop :=
  ∃ status ps, Traffic j.log b.log [finalResponse status] ps ∧
    (status ≠ .success ∨
      j.count.toNat ≤ ps.length ∧ j.Written (ps.take j.count.toNat) b.flash.mem)

end Job

namespace Boot

/-- In a phase, or on the way there. -/
def Bound (phase : Phase) (b : Boot) : Prop :=
  b.wait = .packet ∧ b.state = phase ∨ b.wait = .ackStart (.loop phase) ∨
    b.wait = .ackType (.loop phase)

/-- A command is awaited. -/
def Returned (b : Boot) : Prop := b.wait = .packet ∧ b.state = .command

instance (b : Boot) : Decidable b.Returned := inferInstanceAs (Decidable (_ ∧ _))

variable (target : Target)

/-- The state in which `handle_data_phase` has called `flash_program`. -/
def programmed (b : Boot) : Boot :=
  let r := flashProgram target b.address b.packet.payload b.writeLength b.flash
  let parser := { b.serial.parser with readPacket := { b.packet with payload := r.2.2 } }
  { b with flash := r.1, serial := { b.serial with parser := parser } }

/-- The state after a packet that could be programmed. -/
def advanced (b : Boot) : Boot :=
  { b.programmed target with
    count := b.count - b.writeLength
    address := b.address + b.writeLength }

theorem handleDataPhase_of_fail {b : Boot} (some_ : b.count ≠ 0)
    (failed :
      (flashProgram target b.address b.packet.payload b.writeLength b.flash).2.1 ≠ .success) :
    b.handleDataPhase target = (b.programmed target).dataPhaseAbort.finalizeDataPhase
      (flashProgram target b.address b.packet.payload b.writeLength b.flash).2.1 := by
  simp only [handleDataPhase]
  rw [if_pos some_, if_pos failed]
  rfl

theorem handleDataPhase_of_success {b : Boot} (some_ : b.count ≠ 0)
    (success :
      (flashProgram target b.address b.packet.payload b.writeLength b.flash).2.1 = .success) :
    b.handleDataPhase target = (b.advanced target).dataPhaseEnd := by
  simp only [handleDataPhase]
  rw [if_pos some_, if_neg (not_not_intro success)]
  rfl

theorem writeLength_toNat (b : Boot) :
    b.writeLength.toNat = min b.packet.length b.count.toNat := by
  unfold writeLength
  split_ifs with short
  · rw [BitVec.toNat_ofNat, Nat.mod_eq_of_lt (lt_trans short b.count.isLt),
      Nat.min_eq_left short.le]
  · rw [Nat.min_eq_right (not_lt.mp short)]

theorem writeLength_le_count (b : Boot) : b.writeLength.toNat ≤ b.count.toNat := by
  rw [writeLength_toNat]
  exact Nat.min_le_right _ _

theorem writeLength_le_length (b : Boot) : b.writeLength.toNat ≤ b.packet.length := by
  rw [writeLength_toNat]
  exact Nat.min_le_left _ _

/-- The bytes `flash_program` is given. -/
theorem take_payload (b : Boot) :
    (List.range b.writeLength.toNat).map b.packet.payload =
      (b.packet.data b.packet.length).take b.writeLength.toNat := by
  rw [SerialPacket.data, ← List.map_take, List.take_range, Nat.min_eq_left b.writeLength_le_length]

end Boot

namespace Job

variable {target : Target} {j : Job} {ps : List (BitVec 8)} {b : Boot}

/-- The response that closes a transfer. -/
theorem Done.finalize {status : Status} (traffic : Traffic j.log b.log [] ps)
    (outcome : status ≠ .success ∨
      j.count.toNat ≤ ps.length ∧ j.Written (ps.take j.count.toNat) b.flash.mem) :
    j.Done (b.finalizeDataPhase status) := by
  have sent := Traffic.serialPacketWrite b (genericResponse kCommandTagWriteMemory status)
    (.loop .command)
  rw [Boot.response, SerialPacket.bytes_sealed _ (length_genericResponse _ _)] at sent
  have both := traffic.trans sent
  rw [List.append_nil] at both
  refine ⟨status, ps, both, ?_⟩
  rw [Boot.finalizeDataPhase, Boot.sendGenericResponse, Boot.serialPacketWrite_flash]
  exact outcome

/-- What of a packet is asked for, written. -/
theorem Pending.programmed (pending : j.Pending ps b) (erased : j.Erased)
    (success :
      (flashProgram target b.address b.packet.payload b.writeLength b.flash).2.1 = .success) :
    j.Written (ps ++ (b.packet.data b.packet.length).take b.writeLength.toNat)
      (b.programmed target).flash.mem := by
  have address := pending.address
  have count := pending.count
  have inside := erased.inside
  have le := b.writeLength_le_count
  -- what has been written so far ends where this packet goes
  have clear : ∀ a, b.address.toNat ≤ a → a < b.address.toNat + b.writeLength.toNat →
      flashByte b.flash.mem a = 0xFF := by
    intro a from_ below
    rw [pending.written, overlay_of_le (by omega)]
    exact erased.erased a (by omega) (by omega)
  have writes := flashProgram_writes target success (by omega) clear
  rw [Written, Boot.programmed, writes, Boot.take_payload, pending.written, address,
    overlay_overlay]

/-- Where a transfer can be between two bytes. -/
def Inv (j : Job) (b : Boot) : Prop :=
  (∃ ps, Traffic j.log b.log [] ps ∧ j.Pending ps b ∧ b.Bound .data) ∨
    j.Done b ∧ b.Bound .command

theorem Inv.finalize {status : Status} (traffic : Traffic j.log b.log [] ps)
    (outcome : status ≠ .success ∨
      j.count.toNat ≤ ps.length ∧ j.Written (ps.take j.count.toNat) b.flash.mem) :
    j.Inv (b.finalizeDataPhase status) :=
  Or.inr ⟨.finalize traffic outcome, Or.inr (Or.inl (Boot.serialPacketWrite_wait _ _ _))⟩

/-- What is left of the count, and where the next packet goes. -/
theorem Pending.rest (pending : j.Pending ps b) (erased : j.Erased) :
    (b.count - b.writeLength).toNat = b.count.toNat - b.writeLength.toNat ∧
      (b.address + b.writeLength).toNat = b.address.toNat + b.writeLength.toNat := by
  have address := pending.address
  have count := pending.count
  have inside := erased.inside
  have le := b.writeLength_le_count
  exact ⟨BitVec.toNat_sub_of_le le, by rw [BitVec.toNat_add, Nat.mod_eq_of_lt (by omega)]⟩

/-- A packet that leaves some of the count has been written as a whole. -/
theorem Pending.continues (pending : j.Pending ps b) (erased : j.Erased)
    (success :
      (flashProgram target b.address b.packet.payload b.writeLength b.flash).2.1 = .success)
    (more : b.count - b.writeLength ≠ 0) :
    j.Pending (ps ++ b.packet.data b.packet.length) (b.advanced target) := by
  obtain ⟨rest, next⟩ := pending.rest erased
  have address := pending.address
  have count := pending.count
  have length := b.packet.length_data b.packet.length
  have written := pending.programmed erased success
  have writeLength := b.writeLength_toNat
  have whole : b.writeLength.toNat = b.packet.length := by
    have positive : (b.count - b.writeLength).toNat ≠ 0 := fun zero =>
      more (BitVec.eq_of_toNat_eq zero)
    omega
  rw [whole, List.take_of_length_le length.le] at written
  refine ⟨?_, ?_, written⟩
  · show (b.address + b.writeLength).toNat = _
    rw [List.length_append, length]
    omega
  · show (b.count - b.writeLength).toNat + _ = _
    rw [List.length_append, length]
    omega

/-- A packet that uses the count up has been written as far as it was asked for. -/
theorem Pending.closes (pending : j.Pending ps b) (erased : j.Erased)
    (success :
      (flashProgram target b.address b.packet.payload b.writeLength b.flash).2.1 = .success)
    (last : b.count - b.writeLength = 0) :
    j.count.toNat ≤ (ps ++ b.packet.data b.packet.length).length ∧
      j.Written ((ps ++ b.packet.data b.packet.length).take j.count.toNat)
        (b.advanced target).flash.mem := by
  obtain ⟨rest, -⟩ := pending.rest erased
  have count := pending.count
  have le := b.writeLength_le_count
  have short := b.writeLength_le_length
  have all : b.writeLength.toNat = b.count.toNat := by
    have zero : (b.count - b.writeLength).toNat = 0 := by rw [last]; rfl
    omega
  have asked : (ps ++ b.packet.data b.packet.length).take j.count.toNat =
      ps ++ (b.packet.data b.packet.length).take b.writeLength.toNat := by
    rw [← count, Nat.add_comm, List.take_length_add_append, all]
  refine ⟨?_, ?_⟩
  · rw [List.length_append, SerialPacket.length_data]
    omega
  · rw [asked]
    exact pending.programmed erased success

/-- **A data packet** continues the transfer or closes it. -/
theorem Pending.handleDataPhase (pending : j.Pending ps b) (erased : j.Erased)
    (traffic : Traffic j.log b.log [] (ps ++ b.packet.data b.packet.length))
    (bound : b.Bound .data) : j.Inv (b.handleDataPhase target) := by
  by_cases some_ : b.count ≠ 0
  · by_cases success :
        (flashProgram target b.address b.packet.payload b.writeLength b.flash).2.1 = .success
    · rw [Boot.handleDataPhase_of_success target some_ success]
      by_cases more : b.count - b.writeLength ≠ 0
      · have open_ : (b.advanced target).dataPhaseEnd = b.advanced target := if_pos more
        rw [open_]
        exact Or.inl ⟨_, traffic, pending.continues erased success more, bound⟩
      · have closed : (b.advanced target).dataPhaseEnd =
            (b.advanced target).finalizeDataPhase .success := if_neg more
        rw [closed]
        exact .finalize traffic (Or.inr (pending.closes erased success (not_not.mp more)))
    · rw [Boot.handleDataPhase_of_fail target some_ success]
      exact .finalize (traffic.quiet (.dataPhaseAbort (b.programmed target))) (Or.inl success)
  · -- nothing had been asked for
    have zero : b.count.toNat = 0 := by rw [not_not.mp some_]; rfl
    have count := pending.count
    rw [Boot.handleDataPhase, if_neg some_, Boot.dataPhaseEnd, if_neg some_]
    refine .finalize traffic (Or.inr ⟨?_, ?_⟩)
    · rw [List.length_append]
      omega
    · rw [← count, zero, Nat.zero_add, List.take_left]
      exact pending.written

/-- What concerns neither the transfer nor the flash. -/
theorem Inv.quiet (inv : j.Inv b) {b' : Boot} (traffic : Traffic b.log b'.log [] [])
    (address : b'.address = b.address) (count : b'.count = b.count) (flash : b'.flash = b.flash)
    (bound : ∀ phase, b.Bound phase → b'.Bound phase) : j.Inv b' := by
  rcases inv with ⟨ps, before, pending, heads⟩ | ⟨⟨status, ps, before, outcome⟩, heads⟩
  · refine Or.inl ⟨ps, before.quiet traffic, ⟨?_, ?_, ?_⟩, bound _ heads⟩
    · rw [address]
      exact pending.address
    · rw [count]
      exact pending.count
    · rw [flash]
      exact pending.written
  · refine Or.inr ⟨⟨status, ps, before.quiet traffic, ?_⟩, bound _ heads⟩
    rw [flash]
    exact outcome

/-- While a packet is awaited, the transfer waits for data. -/
theorem Inv.awaits (inv : j.Inv b) (open_ : ¬ b.Returned) (wait : b.wait = .packet) :
    ∃ ps, Traffic j.log b.log [] ps ∧ j.Pending ps b ∧ b.state = .data := by
  rcases inv with ⟨ps, traffic, pending, ⟨-, data⟩ | other | other⟩ |
    ⟨-, ⟨-, command⟩ | other | other⟩
  · exact ⟨ps, traffic, pending, data⟩
  · exact absurd (wait.symm.trans other) nofun
  · exact absurd (wait.symm.trans other) nofun
  · exact absurd ⟨wait, command⟩ open_
  · exact absurd (wait.symm.trans other) nofun
  · exact absurd (wait.symm.trans other) nofun

/-- A byte while a packet is awaited. -/
theorem Inv.runLoop (inv : j.Inv b) (erased : j.Erased) (open_ : ¬ b.Returned)
    (wait : b.wait = .packet) (tmp : BitVec 8) : j.Inv (b.runLoop target tmp) := by
  have read := Traffic.afterRead b tmp
  have address := b.afterRead_address tmp
  have count := b.afterRead_count tmp
  have flash := b.afterRead_flash tmp
  have bound : ∀ phase, b.Bound phase → (b.afterRead tmp).Bound phase := by
    intro phase heads
    rw [Boot.Bound, Boot.afterRead_wait, Boot.afterRead_state]
    exact heads
  -- only an accepted packet moves the transfer on
  rcases b.runLoop_cases target tmp with ⟨-, run⟩ | ⟨-, run⟩ | ⟨-, run | run⟩
  · obtain ⟨ps, traffic, pending, data⟩ := inv.awaits open_ wait
    have accepted := traffic.trans (read.trans (Traffic.accept (b.afterRead tmp)))
    have handled : (b.afterRead tmp).accept.handlePacket target =
        (b.afterRead tmp).accept.handleDataPhase target := by
      rw [Boot.handlePacket, Boot.accept_state, Boot.afterRead_state, data]
    have pending' : j.Pending ps (b.afterRead tmp).accept := by
      refine ⟨?_, ?_, ?_⟩
      · rw [Boot.accept_address, address]
        exact pending.address
      · rw [Boot.accept_count, count]
        exact pending.count
      · rw [Boot.accept_flash, flash]
        exact pending.written
    rw [run, handled]
    exact pending'.handleDataPhase erased accepted (bound _ (Or.inl ⟨wait, data⟩))
  · rw [run]
    exact inv.quiet (read.quiet (.reject _)) address count flash bound
  · rw [run]
    exact inv.quiet read address count flash bound
  · rw [run]
    exact inv.quiet (read.quiet (.emit _ _)) address count flash bound

/-- **One byte** of a transfer that is still open. -/
theorem Inv.step (inv : j.Inv b) (erased : j.Erased) (open_ : ¬ b.Returned) (tmp : BitVec 8) :
    j.Inv (b.step target tmp) := by
  unfold Boot.step
  split
  case h_1 wait => exact inv.runLoop erased open_ wait tmp
  case h_2 next wait =>
    refine inv.quiet (Traffic.emit b (.read tmp)) rfl rfl rfl ?_
    rintro phase (⟨other, -⟩ | same | other)
    · exact absurd (wait.symm.trans other) nofun
    · exact Or.inr (Or.inr (congrArg Wait.ackType (Wait.ackStart.inj (wait.symm.trans same))))
    · exact absurd (wait.symm.trans other) nofun
  case h_3 next wait =>
    -- a transfer never waits for the acknowledgement of a reset or a jump
    have heads : ∀ phase, b.Bound phase → next = .loop phase := by
      rintro phase (⟨other, -⟩ | other | same)
      · exact absurd (wait.symm.trans other) nofun
      · exact absurd (wait.symm.trans other) nofun
      · exact Wait.ackType.inj (wait.symm.trans same)
    have read := Traffic.emit b (.read tmp)
    cases next with
    | loop phase' =>
        refine inv.quiet read rfl rfl rfl fun phase bound => Or.inl ⟨rfl, ?_⟩
        exact Next.loop.inj (heads phase bound)
    | reset => exact inv.quiet read rfl rfl rfl fun phase bound => absurd (heads phase bound) nofun
    | jump sp pc =>
        exact inv.quiet read rfl rfl rfl fun phase bound => absurd (heads phase bound) nofun
  case h_4 => exact inv

end Job

namespace Boot

variable (target : Target) {b : Boot} {tmp : BitVec 8}

/-- The transfer a `WriteMemory` command opens with the byte that completes it. -/
def job (tmp : BitVec 8) (b : Boot) : Job where
  address := word (b.completed tmp).payload 4
  count := word (b.completed tmp).payload 8
  mem := b.flash.mem
  log := (b.step target tmp).log

theorem inv_job (wait : b.wait = .packet) (state : b.state = .command)
    (success : b.verdict tmp = .success)
    (command : (b.completed tmp).payload 0 = kCommandTagWriteMemory) :
    (b.job target tmp).Inv (b.step target tmp) := by
  have isTag : (b.afterRead tmp).accept.packet.payload 0 = kCommandTagWriteMemory := command
  have handled : b.step target tmp = (b.afterRead tmp).accept.handleWriteMemory := by
    rw [Boot.step, wait]
    show b.runLoop target tmp = _
    rw [runLoop_of_success target b tmp success, handlePacket, accept_state,
      afterRead_state, state]
    show (if _ then _ else _) = _
    rw [isTag, if_neg (by decide), if_neg (by decide), if_pos rfl]
  have flash : (b.step target tmp).flash = b.flash := by
    rw [handled, handleWriteMemory, sendGenericResponse, serialPacketWrite_flash]
    exact afterRead_flash b tmp
  refine Or.inl ⟨[], Traffic.refl _, ⟨?_, ?_, ?_⟩, Or.inr (Or.inl ?_)⟩
  · rw [handled, handleWriteMemory, sendGenericResponse, serialPacketWrite_address]
    rfl
  · rw [handled, handleWriteMemory, sendGenericResponse, serialPacketWrite_count]
    rfl
  · rw [Job.Written, overlay_nil, flash]
    rfl
  · rw [handled, handleWriteMemory, sendGenericResponse, serialPacketWrite_wait]

/-- **`WriteMemory` writes the data or reports an error.** A command is accepted whose
range is erased flash.  Whatever the host sends then, when the bootloader first awaits a
command again it has sent one response, and unless that reports an error, the flash holds
the first `count` bytes of the data in the range and is unchanged elsewhere. -/
theorem write_memory (wait : b.wait = .packet) (state : b.state = .command)
    (success : b.verdict tmp = .success)
    (command : (b.completed tmp).payload 0 = kCommandTagWriteMemory)
    (erased : (b.job target tmp).Erased) {bytes : List (BitVec 8)}
    (open_ : Guarded (fun b _ => ¬ b.Returned) (Boot.step target) (b.step target tmp) bytes)
    (returned : (run (Boot.step target) (b.step target tmp) bytes).Returned) :
    (b.job target tmp).Done (run (Boot.step target) (b.step target tmp) bytes) := by
  have inv : (b.job target tmp).Inv (run (Boot.step target) (b.step target tmp) bytes) :=
    run_invariant_of_guarded (I := (b.job target tmp).Inv)
      (fun _ tmp inv open_ => inv.step erased open_ tmp)
      (inv_job target wait state success command) open_
  rcases inv with ⟨ps, -, -, ⟨-, data⟩ | other | other⟩ | ⟨done, -⟩
  · exact absurd (data.symm.trans returned.2) nofun
  · exact absurd (returned.1.symm.trans other) nofun
  · exact absurd (returned.1.symm.trans other) nofun
  · exact done

/-- Six bytes at the base, in packets of four and of three, and the host's
acknowledgements in between. -/
theorem write_memory_six :
    let target : Target := ⟨.FTFL, 0x80000, 0x1fff0000, 0x20000, 0, fun _ => 0x80⟩
    let request : List (BitVec 8) :=
      [kCommandTagWriteMemory, 0, 0, 2] ++ wordBytes applicationBase ++ wordBytes 6
    let sent := encodePacket kFramingPacketTypeCommand request
    let b := run (Boot.step target) (init fun _ => BitVec.allOnes 32) sent.dropLast
    let tmp := sent.getLastD 0
    let bytes := Frame.ack.bytes ++ encodePacket kFramingPacketTypeData [1, 2, 3, 4] ++
      encodePacket kFramingPacketTypeData [5, 6, 7] ++ Frame.ack.bytes
    (b.job target tmp).Done (run (Boot.step target) (b.step target tmp) bytes) := by
  intro target request sent b tmp bytes
  have address : (b.job target tmp).address.toNat = 0x5000 := by decide +kernel
  have count : (b.job target tmp).count.toNat = 6 := by decide +kernel
  have clear : ∀ i < 6, flashByte (b.job target tmp).mem (0x5000 + i) = 0xFF := by decide +kernel
  have erased : (b.job target tmp).Erased := by
    refine ⟨by rw [address, count]; decide, fun a from_ below => ?_⟩
    rw [address] at from_ below
    rw [count] at below
    have here := clear (a - 0x5000) (by omega)
    rwa [Nat.add_sub_cancel' from_] at here
  exact write_memory target (by decide +kernel) (by decide +kernel) (by decide +kernel)
    (by decide +kernel) erased (by decide +kernel) (by decide +kernel)

end Boot

end CannonCar.Kboot
